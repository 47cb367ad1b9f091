import AxiomCarriers.Lib.Stuffing
import AxiomCarriers.Lib.Utf8
import Mathlib.Data.List.DropRight

/-!
# Reading the header block of a mail

`block` gives the lines up to the first empty one, without their terminators, `fold` joins every
line that begins with a space or a tab to the line above, and `name` and `value` read a field.
All of it works on bytes, and only ASCII bytes decide anything, so the reading of a mail passed
through the lossy UTF-8 conversion is the converted reading (`block_lossy`, `fold_map_lossy`,
`name_lossy`).

A block that is written line by line is cut off again at the first empty line (`cut_written`).
-/

namespace Headers

open Bytes Utf8

/-- The line without a final CR. -/
def stripCR (x : Bytes) : Bytes := if x.getLast? = some CR then x.dropLast else x

/-- The text of a line, without its terminator LF or CRLF. -/
def chomp (l : Bytes) : Bytes := if l.getLast? = some LF then stripCR l.dropLast else l

/-- The texts of the header lines: the lines up to the first empty one. -/
def block (b : Bytes) : List Bytes := ((lines b).map chomp).takeWhile (· ≠ [])

/-- A line that continues the field above: it begins with a space or a tab. -/
def isCont (l : Bytes) : Bool := l.head? = some 32 || l.head? = some 9

/-- The fields of a header block: first the text of the continuation lines at its top, that have
no field above, then every field with its continuation lines. -/
def fold : List Bytes → Bytes × List Bytes
  | [] => ([], [])
  | l :: ls =>
    if isCont l then (l ++ (fold ls).1, (fold ls).2)
    else ([], (l ++ (fold ls).1) :: (fold ls).2)

/-- The name of a field in lower case: the text before the colon, less trailing white space. -/
def name (f : Bytes) : Option Bytes :=
  if 58 ∈ f then some (((f.takeWhile (· ≠ 58)).rdropWhile isWs).map lower) else none

/-- The value of a field: the text behind the colon, less the white space around it. -/
def value (f : Bytes) : Bytes :=
  (((f.dropWhile (· ≠ 58)).tail).dropWhile isWs).rdropWhile isWs

@[simp] theorem fold_nil : fold [] = ([], []) := rfl

theorem fold_cons_cont {l : Bytes} (h : isCont l) (ls : List Bytes) :
    fold (l :: ls) = (l ++ (fold ls).1, (fold ls).2) := if_pos h

theorem fold_cons_field {l : Bytes} (h : ¬ isCont l) (ls : List Bytes) :
    fold (l :: ls) = ([], (l ++ (fold ls).1) :: (fold ls).2) := if_neg h

/-- Continuation text is empty or begins with a space or a tab. -/
theorem fold_fst (ls : List Bytes) :
    (fold ls).1 = [] ∨ ∃ c t, (fold ls).1 = c :: t ∧ isWs c := by
  cases ls with
  | nil => exact Or.inl rfl
  | cons l ls =>
    by_cases h : isCont l
    · rw [fold_cons_cont h]
      cases l with
      | nil => simp [isCont] at h
      | cons c t =>
        refine Or.inr ⟨c, t ++ (fold ls).1, rfl, ?_⟩
        simp only [isCont, List.head?_cons, Option.some.injEq, Bool.or_eq_true,
          decide_eq_true_eq] at h
        rcases h with rfl | rfl <;> decide
    · exact Or.inl (by rw [fold_cons_field h])

/-- Trimming at the end gives back a word exactly when only white space follows it. -/
theorem rdropWhile_append_eq_left_iff {α : Type*} {p : α → Bool} {x c : List α}
    (hx : ∀ hne : x ≠ [], ¬ p (x.getLast hne)) :
    (x ++ c).rdropWhile p = x ↔ ∀ b ∈ c, p b := by
  constructor
  · intro h
    have hcut := List.rdropWhile_append_rtakeWhile (p := p) (l := x ++ c)
    rw [h, List.append_cancel_left_eq] at hcut
    exact fun b hb => List.mem_rtakeWhile_imp (hcut ▸ hb)
  · intro h
    induction c using List.reverseRecOn with
    | nil => rwa [List.append_nil, List.rdropWhile_eq_self_iff]
    | append_singleton c b ih =>
      rw [← List.append_assoc, List.rdropWhile_concat_pos _ _ _ (h b (by simp))]
      exact ih fun d hd => h d (List.mem_append_left _ hd)

theorem ne_colon {x : Bytes} (hx : 58 ∉ x) : ∀ b ∈ x, decide (b ≠ 58) = true :=
  fun _ hb => decide_eq_true fun e => hx (e ▸ hb)

theorem takeWhile_no_colon {x : Bytes} (hx : 58 ∉ x) : x.takeWhile (· ≠ 58) = x :=
  List.takeWhile_eq_self_iff.2 (ne_colon hx)

theorem takeWhile_colon {x : Bytes} (hx : 58 ∉ x) (r : Bytes) :
    (x ++ 58 :: r).takeWhile (· ≠ 58) = x := by
  rw [List.takeWhile_append_of_pos (ne_colon hx)]
  simp

theorem dropWhile_colon {x : Bytes} (hx : 58 ∉ x) (r : Bytes) :
    (x ++ 58 :: r).dropWhile (· ≠ 58) = 58 :: r := by
  rw [List.dropWhile_append_of_pos (ne_colon hx)]
  simp

/-! ## Through the lossy conversion -/

theorem lines_lossy (b : Bytes) : lines (lossy b) = (lines b).map lossy := by
  induction b using lines_induction with
  | nil => rfl
  | last x hx h =>
    rw [lines_last hx h, lines_last (fun e => hx (lossy_eq_nil_iff.1 e))
      (fun hm => h ((mem_lossy_ascii (by decide)).1 hm))]
    rfl
  | line x r h ih =>
    have hx : LF ∉ lossy x := fun hm => h ((mem_lossy_ascii (by decide)).1 hm)
    rw [lossy_append_ascii x (by decide), lines_line hx, lines_line h, ih, List.map_cons,
      lossy_append_ascii x (by decide)]
    rfl

/-- Cutting a final ASCII byte commutes with the conversion. -/
theorem dropLast_lossy {c : UInt8} (hc : c < 128) {x : Bytes} (h : x.getLast? = some c) :
    (lossy x).dropLast = lossy x.dropLast := by
  obtain ⟨y, rfl⟩ := List.getLast?_eq_some_iff.1 h
  rw [lossy_append_ascii y hc]
  simp

theorem stripCR_lossy (x : Bytes) : stripCR (lossy x) = lossy (stripCR x) := by
  unfold stripCR
  by_cases h : x.getLast? = some CR
  · rw [if_pos h, if_pos ((getLast?_lossy (by decide)).2 h), dropLast_lossy (by decide) h]
  · rw [if_neg h, if_neg fun e => h ((getLast?_lossy (by decide)).1 e)]

theorem chomp_lossy (l : Bytes) : chomp (lossy l) = lossy (chomp l) := by
  unfold chomp
  by_cases h : l.getLast? = some LF
  · rw [if_pos h, if_pos ((getLast?_lossy (by decide)).2 h), dropLast_lossy (by decide) h,
      stripCR_lossy]
  · rw [if_neg h, if_neg fun e => h ((getLast?_lossy (by decide)).1 e)]

theorem takeWhile_map_lossy (ls : List Bytes) :
    (ls.map lossy).takeWhile (· ≠ []) = (ls.takeWhile (· ≠ [])).map lossy := by
  rw [List.takeWhile_map]
  congr 2
  funext x
  simp [lossy_eq_nil_iff]

/-- The header block of a converted mail is the converted block. -/
theorem block_lossy (b : Bytes) : block (lossy b) = (block b).map lossy := by
  rw [block, block, ← takeWhile_map_lossy, lines_lossy, List.map_map, List.map_map]
  congr 2
  funext l
  exact chomp_lossy l

theorem isCont_lossy (l : Bytes) : isCont (lossy l) = isCont l := by
  rw [Bool.eq_iff_iff]
  simp [isCont, head?_lossy]

theorem lossy_append_fold (x : Bytes) (ls : List Bytes) :
    lossy (x ++ (fold ls).1) = lossy x ++ lossy (fold ls).1 := by
  rcases fold_fst ls with h | ⟨c, t, h, hc⟩
  · simp [h]
  · rw [h, lossy_append_ascii x (isWs_lt hc), lossy_cons_ascii (isWs_lt hc)]

theorem fold_map_lossy (ls : List Bytes) :
    fold (ls.map lossy) = (lossy (fold ls).1, (fold ls).2.map lossy) := by
  induction ls with
  | nil => rfl
  | cons l ls ih =>
    by_cases h : isCont l
    · rw [List.map_cons, fold_cons_cont (by rwa [isCont_lossy]), fold_cons_cont h, ih]
      simp only [lossy_append_fold]
    · rw [List.map_cons, fold_cons_field (by rwa [isCont_lossy]), fold_cons_field h, ih]
      simp [lossy_append_fold]

theorem takeWhile_colon_lossy (f : Bytes) :
    (lossy f).takeWhile (· ≠ 58) = lossy (f.takeWhile (· ≠ 58)) := by
  by_cases h : 58 ∈ f
  · obtain ⟨x, r, rfl, hx⟩ := List.eq_append_cons_of_mem h
    rw [lossy_append_ascii x (by decide), takeWhile_colon hx,
      takeWhile_colon fun hm => hx ((mem_lossy_ascii (by decide)).1 hm)]
  · rw [takeWhile_no_colon h, takeWhile_no_colon fun hm => h ((mem_lossy_ascii (by decide)).1 hm)]

/-- Only ASCII texts are white space behind an ASCII word. -/
theorem ascii_of_word {w : Bytes} (hw : ∀ b ∈ w, b < 128) {x : Bytes}
    (h : (x.rdropWhile isWs).map lower = w) : ∀ b ∈ x, b < 128 := by
  intro b hb
  rw [← List.rdropWhile_append_rtakeWhile (p := isWs) (l := x), List.mem_append] at hb
  rcases hb with hb | hb
  · exact lower_lt.1 (hw _ (h ▸ List.mem_map_of_mem hb))
  · exact isWs_lt (List.mem_rtakeWhile_imp hb)

/-- A field has an ASCII name exactly when the converted field has it. -/
theorem name_lossy {w : Bytes} (hw : ∀ b ∈ w, b < 128) (f : Bytes) :
    name (lossy f) = some w ↔ name f = some w := by
  unfold name
  rw [takeWhile_colon_lossy]
  by_cases h : 58 ∈ f
  · rw [if_pos h, if_pos ((mem_lossy_ascii (by decide)).2 h), Option.some.injEq, Option.some.injEq]
    exact lossy_iff_of_ascii (P := fun x => (x.rdropWhile isWs).map lower = w)
      fun x hx => ascii_of_word hw hx
  · rw [if_neg h, if_neg fun hm => h ((mem_lossy_ascii (by decide)).1 hm)]

/-! ## Writing a block -/

/-- A line that may stand in a block: it is not empty, and nothing in it ends a line. -/
def IsLine (l : Bytes) : Prop := l ≠ [] ∧ CR ∉ l ∧ LF ∉ l

instance : DecidablePred IsLine := fun _ => inferInstanceAs (Decidable (_ ∧ _))

/-- The lines of a block, the empty line, and what follows it. -/
def written (ls : List Bytes) (body : Bytes) : Bytes := ls.flatMap (· ++ crlf) ++ (crlf ++ body)

theorem cut_pass {b : UInt8} {s : Bytes} (h : ¬ crlf ++ crlf <+: b :: s) :
    cut (crlf ++ crlf) (b :: s) = (cut (crlf ++ crlf) s).map fun x => (b :: x.1, x.2) := if_neg h

/-- Text without a CR is passed over. -/
theorem cut_text {l : Bytes} (h : CR ∉ l) (s : Bytes) :
    cut (crlf ++ crlf) (l ++ s) = (cut (crlf ++ crlf) s).map fun x => (l ++ x.1, x.2) := by
  induction l with
  | nil => simp
  | cons b l ih =>
    rw [List.mem_cons, not_or] at h
    show cut (crlf ++ crlf) (b :: (l ++ s)) = _
    rw [cut_pass fun hp => h.1 (List.cons_prefix_cons.1 hp).1, ih h.2, Option.map_map]
    rfl

/-- The end of a line is passed over when another line follows. -/
theorem cut_crlf {s : Bytes} (h : ¬ crlf <+: s) :
    cut (crlf ++ crlf) (crlf ++ s) = (cut (crlf ++ crlf) s).map fun x => (crlf ++ x.1, x.2) := by
  have hcr : ¬ crlf ++ crlf <+: CR :: LF :: s :=
    fun hp => h ((List.prefix_append_right_inj crlf).1 hp)
  have hlf : ¬ crlf ++ crlf <+: LF :: s :=
    fun hp => absurd (List.cons_prefix_cons.1 hp).1 (by decide)
  show cut (crlf ++ crlf) (CR :: LF :: s) = _
  rw [cut_pass hcr, cut_pass hlf, Option.map_map]
  rfl

theorem IsLine.not_starts_crlf {l : Bytes} (h : IsLine l) (s : Bytes) : ¬ crlf <+: l ++ s := by
  obtain ⟨hne, hcr, -⟩ := h
  obtain ⟨b, l, rfl⟩ := List.exists_cons_of_ne_nil hne
  exact fun hp => hcr (List.mem_cons.2 (Or.inl (List.cons_prefix_cons.1 hp).1))

/-- The first empty line of a written block is the one behind its lines. -/
theorem cut_written {ls : List Bytes} (hne : ls ≠ []) (h : ∀ l ∈ ls, IsLine l) (body : Bytes) :
    cut (crlf ++ crlf) (written ls body) = some (crlf.intercalate ls, body) := by
  induction ls with
  | nil => exact absurd rfl hne
  | cons l ls ih =>
    rw [List.forall_mem_cons] at h
    have hwritten : written (l :: ls) body = l ++ (crlf ++ written ls body) := by
      rw [written, written, List.flatMap_cons, List.append_assoc, List.append_assoc]
    rw [hwritten, cut_text h.1.2.1]
    cases ls with
    | nil =>
      show (cut (crlf ++ crlf) (crlf ++ crlf ++ body)).map _ = _
      rw [(cut_eq_some_iff (by decide)).2 ⟨(List.nil_append _).symm, by simp⟩]
      simp
    | cons l' ls =>
      have hnext : ¬ crlf <+: written (l' :: ls) body := by
        rw [written, List.flatMap_cons, List.append_assoc, List.append_assoc]
        exact (h.2 l' List.mem_cons_self).not_starts_crlf _
      rw [cut_crlf hnext, ih (List.cons_ne_nil l' ls) h.2,
        intercalate_cons (List.cons_ne_nil l' ls)]
      simp

theorem splitCrlf_written {ls : List Bytes} (hne : ls ≠ []) (h : ∀ l ∈ ls, IsLine l) :
    splitCrlf (crlf.intercalate ls) = ls :=
  splitCrlf_intercalate hne fun l hl => piece_of_lf (h l hl).2.2

end Headers
