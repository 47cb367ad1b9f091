import AxiomCarriers.Lib.Utf8
import Mathlib.Data.List.DropRight
import Mathlib.Data.Nat.Digits.Defs

/-!
# String operations on bytes

`trim`, `split_whitespace` and `parse::<usize>` of the Rust standard library, on the bytes of a
text.  White space is Unicode's: the ASCII part is `isWs`, the rest are sequences of two and three
bytes.  `marks` says of every byte whether it belongs to a white space character.
-/

namespace Text

open Bytes

/-- White space of two bytes: U+0085 and U+00A0. -/
def isWs₂ (b c : UInt8) : Bool := b = 0xC2 && (c = 0x85 || c = 0xA0)

/-- White space of three bytes. -/
def isWs₃ (b c d : UInt8) : Bool :=
  (b = 0xE1 && c = 0x9A && d = 0x80) ||
  (b = 0xE2 && c = 0x80 && ((0x80 ≤ d && d ≤ 0x8A) || d = 0xA8 || d = 0xA9 || d = 0xAF)) ||
  (b = 0xE2 && c = 0x81 && d = 0x9F) ||
  (b = 0xE3 && c = 0x80 && d = 0x80)

/-- The number of bytes of the white space character at the front of a text, `0` for none. -/
def wsLen (b : UInt8) (r : Bytes) : ℕ :=
  if isWs b then 1
  else if isWs₂ b (r.headD 0) then 2
  else if isWs₃ b (r.headD 0) (r.tail.headD 0) then 3
  else 0

/-- The bytes, each with the mark whether it belongs to a white space character; the first `n`
belong to one that began before. -/
def marksFrom : ℕ → Bytes → List (UInt8 × Bool)
  | _, [] => []
  | n + 1, b :: r => (b, true) :: marksFrom n r
  | 0, b :: r => (b, 0 < wsLen b r) :: marksFrom (wsLen b r - 1) r

/-- The bytes, each with the mark whether it belongs to a white space character. -/
def marks (s : Bytes) : List (UInt8 × Bool) := marksFrom 0 s

def trimStart (s : Bytes) : Bytes := ((marks s).dropWhile (·.2)).map (·.1)

def trimEnd (s : Bytes) : Bytes := ((marks s).rdropWhile (·.2)).map (·.1)

def trim (s : Bytes) : Bytes := (((marks s).dropWhile (·.2)).rdropWhile (·.2)).map (·.1)

/-- `split_whitespace`. -/
def words (s : Bytes) : List Bytes :=
  (((marks s).splitOnP (·.2)).map fun w => w.map (·.1)).filter (· ≠ [])

def isDigit (b : UInt8) : Bool := 48 ≤ b && b ≤ 57

def digits (s : Bytes) : ℕ := s.foldl (fun n b => 10 * n + (b.toNat - 48)) 0

/-- `parse::<usize>`: an optional plus sign and digits, below `2 ^ 64`. -/
def parseUsize (s : Bytes) : Option ℕ :=
  let t := if s.head? = some 43 then s.tail else s
  if t ≠ [] ∧ t.all isDigit ∧ digits t < 2 ^ 64 then some (digits t) else none

def decimal (n : ℕ) : Bytes :=
  if n = 0 then [48] else (Nat.digits 10 n).reverse.map fun d => 48 + d.toUInt8

/-! ## Decimal numbers -/

theorem toNat_digit {d : ℕ} (hd : d < 10) : (48 + d.toUInt8).toNat = 48 + d := by
  rw [UInt8.toNat_add, Nat.toUInt8, UInt8.toNat_ofNat']
  simp only [UInt8.reduceToNat]
  omega

theorem isDigit_digit {d : ℕ} (hd : d < 10) : isDigit (48 + d.toUInt8) := by
  simp only [isDigit, Bool.and_eq_true, decide_eq_true_eq, UInt8.le_iff_toNat_le, toNat_digit hd]
  simp only [UInt8.reduceToNat]
  omega

theorem isDigit_of_mem_decimal {n : ℕ} {b : UInt8} (hb : b ∈ decimal n) : isDigit b := by
  unfold decimal at hb
  split_ifs at hb
  · rw [List.mem_singleton.1 hb]
    rfl
  · obtain ⟨d, hd, rfl⟩ := List.mem_map.1 hb
    exact isDigit_digit (Nat.digits_lt_base (by decide) (List.mem_reverse.1 hd))

theorem decimal_ne_nil (n : ℕ) : decimal n ≠ [] := by
  unfold decimal
  split_ifs with h
  · exact List.cons_ne_nil _ _
  · simp [Nat.digits_eq_nil_iff_eq_zero, h]

theorem digits_map_reverse {ds : List ℕ} (hds : ∀ d ∈ ds, d < 10) :
    digits (ds.reverse.map fun d => 48 + d.toUInt8) = Nat.ofDigits 10 ds := by
  unfold digits
  rw [List.foldl_map, List.foldl_reverse]
  induction ds with
  | nil => rfl
  | cons d ds ih =>
    rw [List.foldr_cons, ih fun x hx => hds x (List.mem_cons_of_mem _ hx), Nat.ofDigits_cons,
      toNat_digit (hds d List.mem_cons_self)]
    simp only [Nat.add_sub_cancel_left]
    omega

theorem digits_decimal (n : ℕ) : digits (decimal n) = n := by
  unfold decimal
  split_ifs with h
  · rw [h]
    rfl
  · rw [digits_map_reverse fun d hd => Nat.digits_lt_base (by decide) hd, Nat.ofDigits_digits]

theorem decimal_inj {m n : ℕ} (h : decimal m = decimal n) : m = n := by
  rw [← digits_decimal m, h, digits_decimal]

theorem notMem_decimal {b : UInt8} (hb : ¬ isDigit b) (n : ℕ) : b ∉ decimal n :=
  fun h => hb (isDigit_of_mem_decimal h)

theorem decimal_word (n : ℕ) : ∀ b ∈ decimal n, b < 128 ∧ ¬ isWs b := by
  intro b hb
  have hdigit := isDigit_of_mem_decimal hb
  simp only [isDigit, Bool.and_eq_true, decide_eq_true_eq] at hdigit
  refine ⟨UInt8.lt_of_le_of_lt hdigit.2 (by decide), fun hws => ?_⟩
  have hle := hdigit.1
  simp only [isWs, Bool.or_eq_true, Bool.and_eq_true, decide_eq_true_eq] at hws
  rcases hws with rfl | ⟨-, h13⟩
  · exact absurd hle (by decide)
  · exact absurd (UInt8.le_trans hle h13) (by decide)

theorem parseUsize_decimal {n : ℕ} (hn : n < 2 ^ 64) : parseUsize (decimal n) = some n := by
  have hhead : (decimal n).head? ≠ some 43 := by
    intro h
    exact absurd (isDigit_of_mem_decimal (List.mem_of_head? h)) (by decide)
  have hall : (decimal n).all isDigit := List.all_eq_true.2 fun _ hb => isDigit_of_mem_decimal hb
  simp only [parseUsize, if_neg hhead, digits_decimal, if_pos (And.intro (decimal_ne_nil n)
    (And.intro hall hn))]

/-! ## Trimming around an ASCII byte -/

theorem isWs₂_ascii {c : UInt8} (hc : c < 128) (b : UInt8) : isWs₂ b c = false := by
  have h : ∀ d, 128 ≤ d → c ≠ d := fun d hd e => absurd (e ▸ hd) (UInt8.not_le.2 hc)
  simp [isWs₂, h 0x85 (by decide), h 0xA0 (by decide)]

theorem isWs₃_ascii {c : UInt8} (hc : c < 128) (b d : UInt8) :
    isWs₃ b c d = false ∧ isWs₃ b d c = false := by
  have h : ∀ d, 128 ≤ d → c ≠ d := fun d hd e => absurd (e ▸ hd) (UInt8.not_le.2 hc)
  have hle : ¬ 0x80 ≤ c := UInt8.not_le.2 hc
  simp [isWs₃, h 0x80 (by decide), h 0x81 (by decide), h 0x9A (by decide), h 0x9F (by decide),
    h 0xA8 (by decide), h 0xA9 (by decide), h 0xAF (by decide), hle]

theorem wsLen_append_ascii {c : UInt8} (hc : c < 128) (b : UInt8) (x r : Bytes) :
    wsLen b (x ++ c :: r) = wsLen b x ∧ wsLen b x ≤ x.length + 1 := by
  have hz : (0 : UInt8) < 128 := by decide
  unfold wsLen
  rcases x with _ | ⟨d, _ | ⟨e, x⟩⟩
  · simp only [List.nil_append, List.headD_cons, List.headD_nil, isWs₂_ascii hc, isWs₂_ascii hz,
      (isWs₃_ascii hc b _).1, (isWs₃_ascii hz b _).1, Bool.false_eq_true, if_false]
    split_ifs <;> simp
  · simp only [List.cons_append, List.nil_append, List.headD_cons, List.tail_cons, List.headD_nil,
      (isWs₃_ascii hc b _).2, (isWs₃_ascii hz b _).2, Bool.false_eq_true, if_false]
    split_ifs <;> simp
  · refine ⟨rfl, ?_⟩
    simp only [List.length_cons]
    split_ifs <;> omega

/-- No white space character reaches over an ASCII byte. -/
theorem marksFrom_append_ascii {n : ℕ} {x : Bytes} (hn : n ≤ x.length) {c : UInt8} (hc : c < 128)
    (r : Bytes) : marksFrom n (x ++ c :: r) = marksFrom n x ++ marks (c :: r) := by
  induction x generalizing n with
  | nil =>
    obtain rfl : n = 0 := by simpa using hn
    rfl
  | cons b x ih =>
    obtain ⟨hlen, hle⟩ := wsLen_append_ascii hc b x r
    cases n with
    | succ n => simp only [List.cons_append, marksFrom, ih (Nat.le_of_succ_le_succ hn)]
    | zero =>
      have hx : wsLen b x - 1 ≤ x.length := by omega
      simp only [List.cons_append, marksFrom, hlen, ih hx]

theorem marks_append_ascii (x : Bytes) {c : UInt8} (hc : c < 128) (r : Bytes) :
    marks (x ++ c :: r) = marks x ++ marks (c :: r) :=
  marksFrom_append_ascii (Nat.zero_le _) hc r

theorem map_fst_marks (x : Bytes) : (marks x).map (·.1) = x := by
  have h : ∀ n, (marksFrom n x).map (·.1) = x := by
    induction x with
    | nil => simp [marksFrom]
    | cons b x ih =>
      intro n
      cases n <;> simp [marksFrom, ih]
  exact h 0

/-- An ASCII byte that is no white space is marked as none. -/
theorem marks_cons_ascii {c : UInt8} (hc : c < 128) (hws : ¬ isWs c) (r : Bytes) :
    marks (c :: r) = (c, false) :: marks r := by
  have h : ∀ d, 128 ≤ d → c ≠ d := fun d hd e => absurd (e ▸ hd) (UInt8.not_le.2 hc)
  have hlen : wsLen c r = 0 := by
    simp [wsLen, hws, isWs₂, isWs₃, h 0xC2 (by decide), h 0xE1 (by decide), h 0xE2 (by decide),
      h 0xE3 (by decide)]
  simp [marks, marksFrom, hlen]

theorem dropWhile_append_stop {α : Type*} {p : α → Bool} {v : α} (hv : ¬ p v) (u w : List α) :
    (u ++ v :: w).dropWhile p = u.dropWhile p ++ v :: w := by
  induction u with
  | nil => simp [hv]
  | cons a u ih => by_cases ha : p a <;> simp [ha, ih]

theorem rdropWhile_append_stop {α : Type*} {p : α → Bool} {v : α} (hv : ¬ p v) (u w : List α) :
    (u ++ v :: w).rdropWhile p = u ++ v :: w.rdropWhile p := by
  simp [List.rdropWhile, dropWhile_append_stop hv]

/-- Trimming around an ASCII byte that is no white space trims on either side of it. -/
theorem trim_append_ascii {c : UInt8} (hc : c < 128) (hws : ¬ isWs c) (x r : Bytes) :
    trim (x ++ c :: r) = trimStart x ++ c :: trimEnd r := by
  rw [trim, marks_append_ascii x hc, marks_cons_ascii hc hws, dropWhile_append_stop (by simp),
    rdropWhile_append_stop (by simp), List.map_append, List.map_cons]
  rfl

theorem trimEnd_append_ascii {c : UInt8} (hc : c < 128) (hws : ¬ isWs c) (x r : Bytes) :
    trimEnd (x ++ c :: r) = x ++ c :: trimEnd r := by
  rw [trimEnd, marks_append_ascii x hc, marks_cons_ascii hc hws, rdropWhile_append_stop (by simp),
    List.map_append, List.map_cons, map_fst_marks]
  rfl

/-- A word at the front stays there. -/
theorem prefix_trim {w : Bytes} (hw : ∀ b ∈ w, b < 128 ∧ ¬ isWs b) (r : Bytes) :
    w <+: trim (w ++ r) := by
  rcases List.eq_nil_or_concat w with rfl | ⟨v, c, rfl⟩
  · exact List.nil_prefix
  · obtain ⟨hc, hws⟩ := hw c (by simp)
    have hstart : trimStart v = v := by
      cases v with
      | nil => rfl
      | cons b v =>
        obtain ⟨hb, hbws⟩ := hw b (by simp)
        rw [trimStart, marks_cons_ascii hb hbws, List.dropWhile_cons_of_neg (by simp),
          List.map_cons, map_fst_marks]
    rw [List.concat_eq_append, List.append_assoc, List.singleton_append,
      trim_append_ascii hc hws, hstart]
    exact ⟨trimEnd r, by simp⟩

theorem trim_sublist (s : Bytes) : (trim s).Sublist s := by
  have hsub : (((marks s).dropWhile (·.2)).rdropWhile (·.2)).Sublist (marks s) :=
    (List.rdropWhile_prefix _ _).sublist.trans (List.dropWhile_sublist _)
  conv_rhs => rw [← map_fst_marks s]
  exact hsub.map _

/-- A text without white space is not trimmed. -/
theorem trim_of_forall {s : Bytes} (h : ∀ b ∈ s, b < 128 ∧ ¬ isWs b) : trim s = s := by
  have hle : (trim s).length ≤ s.length := (trim_sublist s).length_le
  have hpre := prefix_trim h []
  rw [List.append_nil] at hpre
  exact (hpre.eq_of_length_le hle).symm

/-! ## Words -/

/-- A text that has no white space at its ends is not trimmed. -/
theorem trim_of_ends {c d : UInt8} (hc : c < 128 ∧ ¬ isWs c) (hd : d < 128 ∧ ¬ isWs d) (m : Bytes) :
    trim (c :: (m ++ [d])) = c :: (m ++ [d]) := by
  have hstart : trimStart (c :: m) = c :: m := by
    rw [trimStart, marks_cons_ascii hc.1 hc.2, List.dropWhile_cons_of_neg (by simp), List.map_cons,
      map_fst_marks]
  have htrim := trim_append_ascii hd.1 hd.2 (c :: m) []
  rw [hstart] at htrim
  exact htrim

/-- Neither a word nor a blank begins a longer white space. -/
theorem marks_word {w : Bytes} (hw : ∀ b ∈ w, b < 128 ∧ ¬ isWs b) (r : Bytes) :
    marks (w ++ r) = w.map (·, false) ++ marks r := by
  induction w with
  | nil => rfl
  | cons b w ih =>
    rw [List.forall_mem_cons] at hw
    rw [List.cons_append, marks_cons_ascii hw.1.1 hw.1.2, ih hw.2]
    rfl

theorem marks_blank (r : Bytes) : marks (32 :: r) = (32, true) :: marks r := by
  simp [marks, marksFrom, wsLen, isWs]

theorem words_word {w : Bytes} (hne : w ≠ []) (hw : ∀ b ∈ w, b < 128 ∧ ¬ isWs b) : words w = [w] := by
  have hmarks := marks_word hw []
  rw [List.append_nil, show marks [] = [] from rfl, List.append_nil] at hmarks
  have hclear : ∀ x ∈ w.map (·, false), x.2 = false := by simp
  have hback : (w.map (·, false)).map (·.1) = w := by simp [Function.comp_def]
  rw [words, hmarks, List.splitOnP_eq_singleton hclear, List.map_singleton, hback]
  simp [hne]

theorem words_cons {w : Bytes} (hne : w ≠ []) (hw : ∀ b ∈ w, b < 128 ∧ ¬ isWs b) (r : Bytes) :
    words (w ++ 32 :: r) = w :: words r := by
  have hclear : ∀ x ∈ w.map (·, false), x.2 = false := by simp
  have hback : (w.map (·, false)).map (·.1) = w := by simp [Function.comp_def]
  rw [words, marks_word hw, marks_blank,
    List.splitOnP_append_cons_of_forall_mem hclear _ rfl, List.map_cons, hback]
  simp [words, hne]

end Text
