import AxiomCarriers.Fatmama.Addresses

/-!
# The spellings of a host

`canonical_host` strips a name, takes it to lower case, and drops trailing dots, the brackets of an
address literal and the tag of an IPv6 address, each once and in this order.  A later step can bring
out what an earlier one drops: `[a.]` becomes `a.`, which becomes `a`.

A name and its bracketed form have one spelling, which is not changed again, if and only if nothing
but the case and one tag is to be dropped from the name (`canonicalHost_spelling_iff`).
-/

namespace Fatmama

open Bytes

/-- What Python promises of `strip` and `lower`: white space is stripped, which has no lower case and
does not matter to the case of what it surrounds, brackets are not stripped and do not matter
either, and what is stripped out of a lowered text is lowered. -/
structure Str.Laws (py : Str) : Prop where
  strip_lower : ∀ t, ∃ a b, t = a ++ py.strip t ++ b ∧
    py.lower t = a ++ py.lower (py.strip t) ++ b ∧ ∀ x ∈ a ++ b, x ≤ 32 ∨ 128 ≤ x
  strip_brackets : ∀ t, py.strip (91 :: t ++ [93]) = 91 :: t ++ [93]
  lower_brackets : ∀ t, py.lower (91 :: t ++ [93]) = 91 :: py.lower t ++ [93]
  lower_part : ∀ t u v, py.lower t = u ++ v → (∀ b ∈ u, b < 128) →
    py.lower (py.strip v) = py.strip v

/-! ## Texts that are trimmed -/

section Trims

variable {α : Type*} {f g : List α → List α}

/-- The function gives the text back or a shorter one. -/
def Trims (f : List α → List α) : Prop := ∀ t, f t = t ∨ (f t).length < t.length

theorem Trims.length_le (h : Trims f) (t : List α) : (f t).length ≤ t.length :=
  (h t).elim (fun he => Nat.le_of_eq (congrArg List.length he)) Nat.le_of_lt

theorem Trims.comp (hg : Trims g) (hf : Trims f) : Trims fun t => g (f t) := by
  intro t
  rcases hf t with he | hlt
  · dsimp only
    rw [he]
    exact hg t
  · exact Or.inr (Nat.lt_of_le_of_lt (hg.length_le (f t)) hlt)

/-- A text that is trimmed twice is the same only if neither trims it. -/
theorem Trims.comp_eq_iff (hg : Trims g) (hf : Trims f) (t : List α) :
    g (f t) = t ↔ f t = t ∧ g t = t := by
  constructor
  · intro h
    have he : f t = t := (hf t).resolve_right fun hlt => by
      have := hg.length_le (f t)
      rw [h] at this
      omega
    exact ⟨he, by rwa [he] at h⟩
  · rintro ⟨hf, hg⟩
    rw [hf, hg]

end Trims

/-! ## The steps -/

/-- `rstrip(".")`. -/
def dropDots (t : Bytes) : Bytes := t.rdropWhile (· = 46)

def IsBracketed (t : Bytes) : Prop := t.head? = some 91 ∧ t.getLast? = some 93

instance (t : Bytes) : Decidable (IsBracketed t) := instDecidableAnd

/-- The text without the brackets of an address literal. -/
def dropBrackets (t : Bytes) : Bytes := if IsBracketed t then t.tail.dropLast else t

/-- The text without the tag of an IPv6 address. -/
def dropTag (t : Bytes) : Bytes := if ascii "ipv6:" <+: t then t.drop 5 else t

theorem canonicalHost_eq (py : Str) (host : Bytes) :
    canonicalHost py host = dropTag (dropBrackets (dropDots (py.norm host))) := rfl

theorem isBracketed_brackets (t : Bytes) : IsBracketed (91 :: t ++ [93]) :=
  ⟨rfl, List.getLast?_concat⟩

theorem exists_of_isBracketed {t : Bytes} (h : IsBracketed t) : ∃ u, t = 91 :: u ++ [93] := by
  obtain ⟨hhead, hlast⟩ := h
  obtain ⟨v, rfl⟩ := List.getLast?_eq_some_iff.1 hlast
  cases v with
  | nil => simp at hhead
  | cons b u => exact ⟨u, by rw [Option.some.inj hhead]⟩

theorem dropBrackets_brackets (t : Bytes) : dropBrackets (91 :: t ++ [93]) = t := by
  rw [dropBrackets, if_pos (isBracketed_brackets t)]
  simp

theorem dropDots_concat (t : Bytes) {b : UInt8} (h : b ≠ 46) : dropDots (t ++ [b]) = t ++ [b] :=
  List.rdropWhile_concat_neg _ _ _ (by simpa using h)

theorem trims_dropDots : Trims dropDots := by
  intro t
  have hle : dropDots t <+: t := List.rdropWhile_prefix _ t
  by_cases h : t.length ≤ (dropDots t).length
  · exact Or.inl (hle.eq_of_length_le h)
  · exact Or.inr (Nat.lt_of_not_le h)

theorem trims_dropBrackets : Trims dropBrackets := by
  intro t
  by_cases h : IsBracketed t
  · obtain ⟨u, rfl⟩ := exists_of_isBracketed h
    rw [dropBrackets_brackets]
    exact Or.inr (by simp only [List.length_append, List.length_cons, List.length_nil]; omega)
  · exact Or.inl (if_neg h)

theorem trims_dropTag : Trims dropTag := by
  intro t
  by_cases h : ascii "ipv6:" <+: t
  · obtain ⟨r, rfl⟩ := h
    refine Or.inr ?_
    rw [dropTag, if_pos (List.prefix_append _ r), List.length_drop, List.length_append]
    have : (ascii "ipv6:").length = 5 := rfl
    omega
  · exact Or.inl (if_neg h)

theorem dropDots_eq_iff (t : Bytes) : dropDots t = t ↔ t.getLast? ≠ some 46 := by
  rcases List.eq_nil_or_concat t with rfl | ⟨u, b, rfl⟩
  · simp [dropDots]
  · rw [List.concat_eq_append, List.getLast?_concat]
    constructor
    · rintro he hb
      obtain rfl := Option.some.inj hb
      have := congrArg List.length he
      rw [dropDots, List.rdropWhile_concat_pos _ _ _ (by simp)] at this
      have hle := (List.rdropWhile_prefix (fun b : UInt8 => b = 46) u).length_le
      simp only [List.length_append, List.length_singleton] at this
      omega
    · exact fun hb => dropDots_concat u fun he => hb (congrArg some he)

theorem dropBrackets_eq_iff (t : Bytes) : dropBrackets t = t ↔ ¬ IsBracketed t := by
  constructor
  · intro he h
    obtain ⟨u, rfl⟩ := exists_of_isBracketed h
    have := congrArg List.length he
    rw [dropBrackets_brackets] at this
    simp at this
    omega
  · exact fun h => if_neg h

theorem dropTag_append (r : Bytes) : dropTag (ascii "ipv6:" ++ r) = r := by
  rw [dropTag, if_pos (List.prefix_append _ r)]
  rfl

theorem dropTag_eq_iff (t : Bytes) : dropTag t = t ↔ ¬ ascii "ipv6:" <+: t := by
  constructor
  · rintro he ⟨r, rfl⟩
    have := congrArg List.length he
    rw [dropTag_append, List.length_append] at this
    have : (ascii "ipv6:").length = 5 := rfl
    omega
  · exact fun h => if_neg h

/-- No step but the last drops an `i`. -/
theorem count_dropDots (t : Bytes) : (dropDots t).count 105 = t.count 105 := by
  have hdots : (t.rtakeWhile (· = 46)).count 105 = 0 :=
    List.count_eq_zero.2 fun hmem => absurd (List.mem_rtakeWhile_imp hmem) (by decide)
  conv_rhs => rw [← List.rdropWhile_append_rtakeWhile (p := fun b : UInt8 => b = 46) (l := t)]
  rw [List.count_append, hdots]
  rfl

theorem count_dropBrackets (t : Bytes) : (dropBrackets t).count 105 = t.count 105 := by
  by_cases h : IsBracketed t
  · obtain ⟨u, rfl⟩ := exists_of_isBracketed h
    rw [dropBrackets_brackets]
    simp
  · rw [dropBrackets, if_neg h]

/-- The tag is lost only where there is one. -/
theorem eq_of_dropTag_eq {x y : Bytes} (hcount : x.count 105 = y.count 105)
    (h : dropTag x = dropTag y) : x = y := by
  have htag : ∀ r, (ascii "ipv6:" ++ r).count 105 = r.count 105 + 1 := fun r => by
    rw [List.count_append, Nat.add_comm]
    rfl
  by_cases hx : ascii "ipv6:" <+: x <;> by_cases hy : ascii "ipv6:" <+: y
  · obtain ⟨r, rfl⟩ := hx
    obtain ⟨r', rfl⟩ := hy
    rw [dropTag_append, dropTag_append] at h
    rw [h]
  · obtain ⟨r, rfl⟩ := hx
    rw [dropTag_append, (dropTag_eq_iff y).2 hy] at h
    rw [htag, h] at hcount
    omega
  · obtain ⟨r, rfl⟩ := hy
    rw [dropTag_append, (dropTag_eq_iff x).2 hx] at h
    rw [htag, h] at hcount
    omega
  · rwa [(dropTag_eq_iff x).2 hx, (dropTag_eq_iff y).2 hy] at h

/-! ## Spellings -/

variable {py : Str}

/-- Nothing is to be dropped from the name but its case and one tag. -/
def Plain (py : Str) (h : Bytes) : Prop :=
  py.strip h = h ∧ (py.lower h).getLast? ≠ some 46 ∧ ¬ IsBracketed (py.lower h) ∧
    ∀ r, py.lower h = ascii "ipv6:" ++ r →
      py.strip r = r ∧ ¬ IsBracketed r ∧ ¬ ascii "ipv6:" <+: r

theorem canonicalHost_brackets (hpy : py.Laws) (h : Bytes) :
    canonicalHost py (91 :: h ++ [93]) = dropTag (py.lower h) := by
  rw [canonicalHost_eq, Str.norm, hpy.strip_brackets, hpy.lower_brackets,
    dropDots_concat _ (by decide), dropBrackets_brackets]

theorem count_norm (hpy : py.Laws) (h : Bytes) :
    (py.norm h).count 105 = (py.lower h).count 105 := by
  obtain ⟨a, b, -, hlower, hblank⟩ := hpy.strip_lower h
  have hzero : ∀ u, u ⊆ a ++ b → u.count 105 = 0 := fun u hu =>
    List.count_eq_zero.2 fun hmem => absurd (hblank 105 (hu hmem)) (by decide)
  rw [hlower, List.count_append, List.count_append, hzero a (List.subset_append_left a b),
    hzero b (List.subset_append_right a b), Str.norm]
  omega

/-- The name is the same without what the steps before the last drop. -/
theorem trimmed_eq_iff (hpy : py.Laws) (h : Bytes) :
    dropBrackets (dropDots (py.norm h)) = py.lower h ↔
      py.strip h = h ∧ (py.lower h).getLast? ≠ some 46 ∧ ¬ IsBracketed (py.lower h) := by
  rw [← dropDots_eq_iff, ← dropBrackets_eq_iff, ← trims_dropBrackets.comp_eq_iff trims_dropDots]
  constructor
  · intro he
    obtain ⟨a, b, hh, hlower, -⟩ := hpy.strip_lower h
    have hle := (trims_dropBrackets.comp trims_dropDots).length_le (py.norm h)
    rw [he, hlower, List.length_append, List.length_append, Str.norm] at hle
    obtain rfl := List.length_eq_zero_iff.1 (show a.length = 0 by omega)
    obtain rfl := List.length_eq_zero_iff.1 (show b.length = 0 by omega)
    have hstrip : py.strip h = h := by simpa using hh.symm
    refine ⟨hstrip, ?_⟩
    rwa [Str.norm, hstrip] at he
  · rintro ⟨hstrip, he⟩
    rwa [Str.norm, hstrip]

theorem trims_strip (hpy : py.Laws) : Trims py.strip := by
  intro t
  obtain ⟨a, b, ht, -, -⟩ := hpy.strip_lower t
  have hlen := congrArg List.length ht
  rw [List.length_append, List.length_append] at hlen
  by_cases hlt : (py.strip t).length < t.length
  · exact Or.inr hlt
  · obtain rfl := List.length_eq_zero_iff.1 (show a.length = 0 by omega)
    obtain rfl := List.length_eq_zero_iff.1 (show b.length = 0 by omega)
    exact Or.inl (by simpa using ht.symm)

/-- What is behind the tag, as a host of its own. -/
theorem canonicalHost_rest_iff (hpy : py.Laws) {h r : Bytes} (hr : py.lower h = ascii "ipv6:" ++ r)
    (hdot : (py.lower h).getLast? ≠ some 46) :
    canonicalHost py r = r ↔ py.strip r = r ∧ ¬ IsBracketed r ∧ ¬ ascii "ipv6:" <+: r := by
  have hlast : r.getLast? ≠ some 46 := by
    intro hlast
    rw [hr, List.getLast?_append, hlast] at hdot
    exact hdot rfl
  have htrims : Trims fun t => dropTag (dropBrackets (dropDots t)) :=
    trims_dropTag.comp (trims_dropBrackets.comp trims_dropDots)
  rw [canonicalHost_eq, Str.norm, hpy.lower_part h _ r hr (by decide),
    htrims.comp_eq_iff (trims_strip hpy) r,
    trims_dropTag.comp_eq_iff (trims_dropBrackets.comp trims_dropDots) r,
    trims_dropBrackets.comp_eq_iff trims_dropDots r, dropDots_eq_iff, dropBrackets_eq_iff,
    dropTag_eq_iff]
  exact and_congr_right fun _ => and_congr_left fun _ => and_iff_right hlast

/-- A name and its bracketed form have one spelling, which stays as it is, if and only if the name is
plain. -/
theorem canonicalHost_spelling_iff {py : Str} (hpy : py.Laws) (h : Bytes) :
    (canonicalHost py (canonicalHost py h) = canonicalHost py h ∧
      canonicalHost py (91 :: h ++ [93]) = canonicalHost py h) ↔ Plain py h := by
  rw [canonicalHost_brackets hpy]
  constructor
  · rintro ⟨hagain, hbrackets⟩
    have hcount : (py.lower h).count 105 = (dropBrackets (dropDots (py.norm h))).count 105 := by
      rw [count_dropBrackets, count_dropDots, count_norm hpy]
    have heq := (eq_of_dropTag_eq hcount hbrackets).symm
    obtain ⟨hstrip, hdot, hopen⟩ := (trimmed_eq_iff hpy h).1 heq
    refine ⟨hstrip, hdot, hopen, fun r hr => ?_⟩
    rw [canonicalHost_eq py h, heq, hr, dropTag_append] at hagain
    exact (canonicalHost_rest_iff hpy hr hdot).1 hagain
  · rintro ⟨hstrip, hdot, hopen, hrest⟩
    have heq := (trimmed_eq_iff hpy h).2 ⟨hstrip, hdot, hopen⟩
    rw [canonicalHost_eq py h, heq]
    refine ⟨?_, rfl⟩
    by_cases htag : ascii "ipv6:" <+: py.lower h
    · obtain ⟨r, hr⟩ := htag
      rw [← hr, dropTag_append]
      exact (canonicalHost_rest_iff hpy hr.symm hdot).2 (hrest r hr.symm)
    · -- Without a tag the name is its own spelling.
      have hnorm : py.norm (py.lower h) = py.lower h := py.lower_stripped h hstrip
      rw [(dropTag_eq_iff _).2 htag, canonicalHost_eq, hnorm, (dropDots_eq_iff _).2 hdot,
        (dropBrackets_eq_iff _).2 hopen, (dropTag_eq_iff _).2 htag]

theorem map_lower_of_ws {a : Bytes} (ha : ∀ x ∈ a, isWs x) : a.map Bytes.lower = a := by
  have key : ∀ c : BitVec 8, isWs (UInt8.ofBitVec c) →
      Bytes.lower (UInt8.ofBitVec c) = UInt8.ofBitVec c := by decide
  exact (List.map_congr_left fun x hx => key x.toBitVec (ha x hx)).trans (List.map_id a)

theorem asciiStr_laws : asciiStr.Laws where
  strip_lower t := by
    obtain ⟨a, b, ha, hb, ht⟩ := exists_asciiStrip t
    refine ⟨a, b, ht, ?_, fun x hx => Or.inl ?_⟩
    · show t.map Bytes.lower = a ++ (asciiStrip t).map Bytes.lower ++ b
      conv_lhs => rw [ht]
      rw [List.map_append, List.map_append, map_lower_of_ws ha, map_lower_of_ws hb]
    · have key : ∀ c : BitVec 8, isWs (UInt8.ofBitVec c) → UInt8.ofBitVec c ≤ 32 := by decide
      exact key x.toBitVec ((List.mem_append.1 hx).elim (ha x) (hb x))
  strip_brackets t := by
    show ((91 :: (t ++ [93])).dropWhile isWs).rdropWhile isWs = 91 :: t ++ [93]
    rw [List.dropWhile_cons_of_neg (by decide), ← List.cons_append,
      List.rdropWhile_concat_neg _ _ _ (by decide)]
  lower_brackets t := by
    show (91 :: t ++ [93]).map Bytes.lower = 91 :: t.map Bytes.lower ++ [93]
    rw [List.map_append, List.map_cons]
    rfl
  lower_part t u v h _ := by
    obtain ⟨t₁, t₂, -, -, rfl⟩ := List.map_eq_append_iff.1 h
    show (asciiStrip (t₂.map Bytes.lower)).map Bytes.lower = asciiStrip (t₂.map Bytes.lower)
    rw [asciiStrip_map_lower, List.map_map]
    exact List.map_congr_left fun x _ => lower_lower x

/-- An address literal with a tag. -/
theorem canonicalHost_spelling_iff_literal :
    canonicalHost asciiStr (ascii "[IPv6:2001:db8::1]") = ascii "2001:db8::1" ∧
    canonicalHost asciiStr (91 :: ascii "IPv6:2001:db8::1" ++ [93]) =
      canonicalHost asciiStr (ascii "IPv6:2001:db8::1") := by
  refine ⟨by decide, ((canonicalHost_spelling_iff asciiStr_laws (ascii "IPv6:2001:db8::1")).2
    ⟨by decide, by decide, by decide, fun r hr => ?_⟩).2⟩
  obtain rfl : ascii "2001:db8::1" = r := by
    have := congrArg (List.drop 5) hr
    exact this
  decide

/-- A dot inside the brackets. -/
theorem canonicalHost_two_spellings :
    canonicalHost asciiStr (ascii "203.0.113.5.") = ascii "203.0.113.5" ∧
    canonicalHost asciiStr (ascii "[203.0.113.5.]") = ascii "203.0.113.5." ∧
    canonicalHost asciiStr (canonicalHost asciiStr (ascii "[203.0.113.5.]")) ≠
      canonicalHost asciiStr (ascii "[203.0.113.5.]") := by decide

end Fatmama
