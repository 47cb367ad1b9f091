import AxiomCarriers.Lib.Bytes

/-!
# Base64

The standard alphabet with canonical padding: a decoder that accepts exactly what the encoder writes
(`decode_eq_some_iff`).  Three bytes are four groups of six bits; in a last group that is not full
the bits that stand for no byte are zero.
-/

namespace Base64

open Bytes

/-- The character for six bits. -/
def symbol (n : ℕ) : UInt8 :=
  if n < 26 then (n + 65).toUInt8
  else if n < 52 then (n + 71).toUInt8
  else if n < 62 then (n - 4).toUInt8
  else if n = 62 then 43
  else 47

/-- The six bits that a character stands for. -/
def value (c : UInt8) : Option ℕ :=
  if 65 ≤ c ∧ c ≤ 90 then some (c.toNat - 65)
  else if 97 ≤ c ∧ c ≤ 122 then some (c.toNat - 71)
  else if 48 ≤ c ∧ c ≤ 57 then some (c.toNat + 4)
  else if c = 43 then some 62
  else if c = 47 then some 63
  else none

def pad : UInt8 := 61

def encode : Bytes → Bytes
  | [] => []
  | [a] => [symbol (a.toNat / 4), symbol (a.toNat % 4 * 16), pad, pad]
  | [a, b] =>
    [symbol (a.toNat / 4), symbol (a.toNat % 4 * 16 + b.toNat / 16), symbol (b.toNat % 16 * 4), pad]
  | a :: b :: c :: r =>
    symbol (a.toNat / 4) :: symbol (a.toNat % 4 * 16 + b.toNat / 16) ::
      symbol (b.toNat % 16 * 4 + c.toNat / 64) :: symbol (c.toNat % 64) :: encode r

def first (x y : ℕ) : UInt8 := (x * 4 + y / 16).toUInt8
def second (y z : ℕ) : UInt8 := (y % 16 * 16 + z / 4).toUInt8
def third (z w : ℕ) : UInt8 := (z % 4 * 64 + w).toUInt8

/-- A last group with one pad or two. -/
def decodeLast (p q r : UInt8) : Option Bytes :=
  if r = pad then
    match value p, value q with
    | some x, some y => if y % 16 = 0 then some [first x y] else none
    | _, _ => none
  else
    match value p, value q, value r with
    | some x, some y, some z => if z % 4 = 0 then some [first x y, second y z] else none
    | _, _, _ => none

def decode : Bytes → Option Bytes
  | [] => some []
  | p :: q :: r :: s :: t =>
    if s = pad ∧ t = [] then decodeLast p q r
    else
      match value p, value q, value r, value s with
      | some x, some y, some z, some w =>
        (decode t).map fun b => first x y :: second y z :: third z w :: b
      | _, _, _, _ => none
  | _ => none

/-! ## The alphabet -/

theorem value_eq_some_iff {c : UInt8} {n : ℕ} : value c = some n ↔ n < 64 ∧ symbol n = c := by
  constructor
  · have all : ∀ m : BitVec 8, ∀ n ∈ value (UInt8.ofBitVec m),
        n < 64 ∧ symbol n = UInt8.ofBitVec m := by
      decide
    exact all c.toBitVec n
  · have all : ∀ n < 64, value (symbol n) = some n := by decide
    rintro ⟨hn, rfl⟩
    exact all n hn

theorem value_pad : value pad = none := by decide

theorem symbol_ne_pad {n : ℕ} (h : n < 64) : symbol n ≠ pad := by
  intro he
  have hvalue := value_eq_some_iff.2 ⟨h, he⟩
  rw [value_pad] at hvalue
  cases hvalue

theorem value_symbol {n : ℕ} (h : n < 64) : value (symbol n) = some n :=
  value_eq_some_iff.2 ⟨h, rfl⟩

/-! ## Bits -/

theorem toUInt8_eq {n : ℕ} {b : UInt8} (h : n = b.toNat) : n.toUInt8 = b := by
  rw [h]
  exact UInt8.ofNat_toNat

theorem first_bits (a : UInt8) {k : ℕ} (hk : k < 16) :
    first (a.toNat / 4) (a.toNat % 4 * 16 + k) = a := by
  apply toUInt8_eq
  omega

theorem second_bits (b : UInt8) (j : ℕ) {k : ℕ} (hk : k < 4) :
    second (j * 16 + b.toNat / 16) (b.toNat % 16 * 4 + k) = b := by
  have hb := b.toNat_lt
  apply toUInt8_eq
  omega

theorem third_bits (c : UInt8) (j : ℕ) : third (j * 4 + c.toNat / 64) (c.toNat % 64) = c := by
  have hc := c.toNat_lt
  apply toUInt8_eq
  omega

theorem toNat_first {x y : ℕ} (hx : x < 64) (hy : y < 64) : (first x y).toNat = x * 4 + y / 16 :=
  UInt8.toNat_ofNat_of_lt' (by rw [UInt8.size]; omega)

theorem toNat_second {y z : ℕ} (hz : z < 64) : (second y z).toNat = y % 16 * 16 + z / 4 :=
  UInt8.toNat_ofNat_of_lt' (by rw [UInt8.size]; omega)

theorem toNat_third {z w : ℕ} (hw : w < 64) : (third z w).toNat = z % 4 * 64 + w :=
  UInt8.toNat_ofNat_of_lt' (by rw [UInt8.size]; omega)

/-! ## Encoding and decoding -/

theorem decode_encode (b : Bytes) : decode (encode b) = some b := by
  induction b using encode.induct with
  | case1 => rfl
  | case2 a =>
    have ha := a.toNat_lt
    rw [encode, decode, if_pos ⟨rfl, rfl⟩, decodeLast, if_pos rfl, value_symbol (by omega),
      value_symbol (by omega)]
    simp only
    rw [if_pos (by omega)]
    exact congrArg (fun x => some [x]) (first_bits a (k := 0) (by omega))
  | case3 a b =>
    have ha := a.toNat_lt
    have hb := b.toNat_lt
    rw [encode, decode, if_pos ⟨rfl, rfl⟩, decodeLast, if_neg (symbol_ne_pad (by omega)),
      value_symbol (by omega), value_symbol (by omega), value_symbol (by omega)]
    simp only
    rw [if_pos (by omega), first_bits a (by omega)]
    exact congrArg (fun x => some [a, x]) (second_bits b _ (k := 0) (by omega))
  | case4 a b c r ih =>
    have ha := a.toNat_lt
    have hb := b.toNat_lt
    have hc := c.toNat_lt
    have hpad : ¬ (symbol (c.toNat % 64) = pad ∧ encode r = []) :=
      fun h => symbol_ne_pad (by omega) h.1
    rw [encode, decode, if_neg hpad, value_symbol (by omega), value_symbol (by omega),
      value_symbol (by omega), value_symbol (by omega), ih]
    simp only [Option.map_some]
    rw [first_bits a (by omega), second_bits b _ (by omega), third_bits]

theorem encode_decodeLast {p q r : UInt8} {b : Bytes} (h : decodeLast p q r = some b) :
    encode b = [p, q, r, pad] := by
  unfold decodeLast at h
  split at h
  next hr =>
    split at h
    next x y hp hq =>
      split_ifs at h with hbits
      obtain ⟨hx, rfl⟩ := value_eq_some_iff.1 hp
      obtain ⟨hy, rfl⟩ := value_eq_some_iff.1 hq
      obtain rfl := Option.some.inj h
      have hfirst : (x * 4 + y / 16) / 4 = x := by omega
      have hsecond : (x * 4 + y / 16) % 4 * 16 = y := by omega
      rw [encode, toNat_first hx hy, hfirst, hsecond, hr]
    · cases h
  next hr =>
    split at h
    next x y z hp hq hr =>
      split_ifs at h with hbits
      obtain ⟨hx, rfl⟩ := value_eq_some_iff.1 hp
      obtain ⟨hy, rfl⟩ := value_eq_some_iff.1 hq
      obtain ⟨hz, rfl⟩ := value_eq_some_iff.1 hr
      obtain rfl := Option.some.inj h
      have hfirst : (x * 4 + y / 16) / 4 = x := by omega
      have hsecond : (x * 4 + y / 16) % 4 * 16 + (y % 16 * 16 + z / 4) / 16 = y := by omega
      have hthird : (y % 16 * 16 + z / 4) % 16 * 4 = z := by omega
      rw [encode, toNat_first hx hy, toNat_second hz, hfirst, hsecond, hthird]
    · cases h

/-- Four characters are the encoding of the three bytes they decode to. -/
theorem encode_group {x y z w : ℕ} (hx : x < 64) (hy : y < 64) (hz : z < 64) (hw : w < 64)
    (b : Bytes) :
    encode (first x y :: second y z :: third z w :: b) =
      symbol x :: symbol y :: symbol z :: symbol w :: encode b := by
  have hfirst : (x * 4 + y / 16) / 4 = x := by omega
  have hsecond : (x * 4 + y / 16) % 4 * 16 + (y % 16 * 16 + z / 4) / 16 = y := by omega
  have hthird : (y % 16 * 16 + z / 4) % 16 * 4 + (z % 4 * 64 + w) / 64 = z := by omega
  have hfourth : (z % 4 * 64 + w) % 64 = w := by omega
  rw [encode, toNat_first hx hy, toNat_second hz, toNat_third hw, hfirst, hsecond, hthird, hfourth]

/-- What decodes is what the bytes encode to. -/
theorem encode_decode {t b : Bytes} (h : decode t = some b) : encode b = t := by
  induction t using decode.induct generalizing b with
  | case1 =>
    obtain rfl := Option.some.inj h
    rfl
  | case2 p q r s t hlast =>
    rw [decode, if_pos hlast] at h
    rw [encode_decodeLast h, hlast.1, hlast.2]
  | case3 p q r s t hlast x y z w hs hr hq hp ih =>
    rw [decode, if_neg hlast, hp, hq, hr, hs] at h
    obtain ⟨b, hb, rfl⟩ := Option.map_eq_some_iff.1 h
    obtain ⟨hx, rfl⟩ := value_eq_some_iff.1 hp
    obtain ⟨hy, rfl⟩ := value_eq_some_iff.1 hq
    obtain ⟨hz, rfl⟩ := value_eq_some_iff.1 hr
    obtain ⟨hw, rfl⟩ := value_eq_some_iff.1 hs
    rw [encode_group hx hy hz hw, ih hb]
  | case4 p q r s t hlast hvalues =>
    rw [decode, if_neg hlast] at h
    split at h
    next hp hq hr hs => exact absurd hs (hvalues _ _ _ _ hp hq hr)
    · cases h
  | case5 => simp_all [decode]

theorem decode_eq_some_iff {t b : Bytes} : decode t = some b ↔ t = encode b :=
  ⟨fun h => (encode_decode h).symm, fun h => h ▸ decode_encode b⟩

/-- Nothing is written but the alphabet and the pad. -/
theorem mem_encode {b : Bytes} {c : UInt8} (h : c ∈ encode b) : (value c).isSome ∨ c = pad := by
  have hsymbol : ∀ n < 64, (value (symbol n)).isSome := fun n hn =>
    Option.isSome_iff_exists.2 ⟨n, value_symbol hn⟩
  induction b using encode.induct with
  | case1 => cases h
  | case2 a =>
    have ha := a.toNat_lt
    simp only [encode, List.mem_cons, List.not_mem_nil, or_false] at h
    rcases h with rfl | rfl | rfl | rfl
    · exact .inl (hsymbol _ (by omega))
    · exact .inl (hsymbol _ (by omega))
    · exact .inr rfl
    · exact .inr rfl
  | case3 a b =>
    have ha := a.toNat_lt
    have hb := b.toNat_lt
    simp only [encode, List.mem_cons, List.not_mem_nil, or_false] at h
    rcases h with rfl | rfl | rfl | rfl
    · exact .inl (hsymbol _ (by omega))
    · exact .inl (hsymbol _ (by omega))
    · exact .inl (hsymbol _ (by omega))
    · exact .inr rfl
  | case4 a b c' r ih =>
    have ha := a.toNat_lt
    have hb := b.toNat_lt
    have hc := c'.toNat_lt
    simp only [encode, List.mem_cons] at h
    rcases h with rfl | rfl | rfl | rfl | h
    · exact .inl (hsymbol _ (by omega))
    · exact .inl (hsymbol _ (by omega))
    · exact .inl (hsymbol _ (by omega))
    · exact .inl (hsymbol _ (by omega))
    · exact ih h

theorem encode_eq_nil_iff {b : Bytes} : encode b = [] ↔ b = [] := by
  refine ⟨fun h => ?_, fun h => by rw [h, encode]⟩
  have hb := decode_encode b
  rw [h] at hb
  exact (Option.some.inj hb).symm

end Base64
