import Mathlib.Data.List.DropRight
import Mathlib.Tactic.Common

/-!
# Quoted strings

A text is put between two quotes `q`, with the escape character `e` before each of its quotes and
escape characters.  `Chars` is the grammar of what then stands between the quotes, with a condition
on the characters that stand for themselves, and `unquote` reads it up to the closing quote,
whatever comes behind (`unquote_append`).  A quote is escaped when an odd number of escape
characters stands before it, and all are but the first and the last (`Chars.not_escaped_iff`).
-/

namespace Quoted

variable {α : Type*} [DecidableEq α] (q e : α)

/-- Every `c` becomes the word `w`. -/
def replace (c : α) (w s : List α) : List α := s.flatMap fun a => if a = c then w else [a]

/-- The text with the escape character before its quotes and escape characters. -/
def escape (s : List α) : List α := s.flatMap fun a => if a = e ∨ a = q then [e, a] else [a]

/-- What stands between the quotes, and the text that it stands for. -/
inductive Chars (plain : α → Prop) : List α → List α → Prop
  | nil : Chars plain [] []
  | plain {a t v} (hq : a ≠ q) (he : a ≠ e) (ha : plain a) (h : Chars plain t v) :
      Chars plain (a :: t) (a :: v)
  | escaped {a t v} (ha : a = e ∨ a = q) (h : Chars plain t v) : Chars plain (e :: a :: t) (a :: v)

/-- The reader behind an opening quote, with the flag whether the next character is escaped. -/
def unquoteFrom : Bool → List α → Option (List α × List α)
  | _, [] => none
  | true, a :: l =>
    if a = e ∨ a = q then (unquoteFrom false l).map fun x => (a :: x.1, x.2) else none
  | false, a :: l =>
    if a = q then some ([], l)
    else if a = e then unquoteFrom true l
    else (unquoteFrom false l).map fun x => (a :: x.1, x.2)

/-- The text behind an opening quote, and what follows its closing quote. -/
def unquote (l : List α) : Option (List α × List α) := unquoteFrom q e false l

/-- What comes next is escaped: an odd number of escape characters stands before it. -/
def Escaped (u : List α) : Prop := (u.rtakeWhile (· = e)).length % 2 = 1

variable {q e} {plain : α → Prop} {s t u v : List α}

/-! ## The escape -/

/-- The second replacement leaves alone what the first one writes. -/
theorem replace_replace (hqe : q ≠ e) (s : List α) :
    replace q [e, q] (replace e [e, e] s) = escape q e s := by
  induction s with
  | nil => rfl
  | cons a s ih =>
    have happ : ∀ x y : List α, replace q [e, q] (x ++ y) =
        replace q [e, q] x ++ replace q [e, q] y := fun x y => List.flatMap_append
    simp only [replace, escape, List.flatMap_cons] at ih happ ⊢
    rw [happ, ih]
    by_cases he : a = e
    · simp [he, hqe.symm]
    · by_cases hq : a = q <;> simp [he, hq, hqe]

omit [DecidableEq α] in
theorem Chars.cond_of_mem (h : Chars q e plain t v) : ∀ a ∈ v, a = e ∨ a = q ∨ plain a := by
  induction h with
  | nil => exact fun a ha => absurd ha List.not_mem_nil
  | plain hq he ha h ih => exact List.forall_mem_cons.2 ⟨Or.inr (Or.inr ha), ih⟩
  | escaped ha h ih => exact List.forall_mem_cons.2 ⟨ha.imp_right Or.inl, ih⟩

theorem chars_escape (h : ∀ a ∈ s, a = e ∨ a = q ∨ plain a) :
    Chars q e plain (escape q e s) s := by
  induction s with
  | nil => exact Chars.nil
  | cons a s ih =>
    obtain ⟨ha, hs⟩ := List.forall_mem_cons.1 h
    rw [escape, List.flatMap_cons]
    split_ifs with hsp
    · exact Chars.escaped hsp (ih hs)
    · obtain ⟨he, hq⟩ := not_or.1 hsp
      exact Chars.plain hq he ((ha.resolve_left he).resolve_left hq) (ih hs)

omit [DecidableEq α] in
/-- Only escape characters are added. -/
theorem Chars.notMem (h : Chars q e plain t v) {c : α} (hc : c ≠ e) (hv : c ∉ v) : c ∉ t := by
  induction h with
  | nil => exact hv
  | plain hq he ha h ih =>
    rw [List.mem_cons, not_or] at hv ⊢
    exact ⟨hv.1, ih hv.2⟩
  | escaped ha h ih =>
    rw [List.mem_cons, not_or] at hv
    rw [List.mem_cons, not_or, List.mem_cons, not_or]
    exact ⟨hc, hv.1, ih hv.2⟩

/-! ## The reader -/

/-- The reader stops at the closing quote, whatever follows it. -/
theorem unquote_append (hqe : q ≠ e) (h : Chars q e plain t v) (r : List α) :
    unquote q e (t ++ q :: r) = some (v, r) := by
  unfold unquote
  induction h with
  | nil => simp [unquoteFrom]
  | plain hq he ha h ih => simp [unquoteFrom, hq, he, ih]
  | escaped ha h ih => simp [unquoteFrom, hqe.symm, ha, ih]

/-! ## The quotes that are not escaped -/

theorem not_escaped_nil : ¬ Escaped e [] := by simp [Escaped]

theorem escaped_concat (u : List α) : Escaped e (u ++ [e]) ↔ ¬ Escaped e u := by
  rw [Escaped, Escaped, List.rtakeWhile_concat_pos _ _ _ (by simp), List.length_append,
    List.length_singleton]
  omega

theorem not_escaped_concat (u : List α) {a : α} (ha : a ≠ e) : ¬ Escaped e (u ++ [a]) := by
  rw [Escaped, List.rtakeWhile_concat_neg _ _ _ (by simpa using ha), List.length_nil]
  decide

/-- The escape character and the one behind it leave nothing escaped. -/
theorem not_escaped_pair (hu : ¬ Escaped e u) (a : α) : ¬ Escaped e (u ++ [e] ++ [a]) := by
  by_cases ha : a = e
  · rw [ha, escaped_concat, not_not, escaped_concat]
    exact hu
  · exact not_escaped_concat _ ha

theorem Chars.not_escaped (h : Chars q e plain t v) (hu : ¬ Escaped e u) :
    ¬ Escaped e (u ++ t) := by
  induction h generalizing u with
  | nil => rwa [List.append_nil]
  | @plain a t v hq he ha h ih =>
    have hsplit : u ++ a :: t = u ++ [a] ++ t := by simp
    rw [hsplit]
    exact ih (not_escaped_concat u he)
  | @escaped a t v ha h ih =>
    have hsplit : u ++ e :: a :: t = u ++ [e] ++ [a] ++ t := by simp
    rw [hsplit]
    exact ih (not_escaped_pair hu a)

/-- Every quote between the quotes is escaped. -/
theorem Chars.escaped_quote (hqe : q ≠ e) (h : Chars q e plain t v) (hu : ¬ Escaped e u)
    {x y : List α} (ht : t = x ++ q :: y) : Escaped e (u ++ x) := by
  induction h generalizing u x with
  | nil => simp at ht
  | @plain a t v hq he ha h ih =>
    cases x with
    | nil => exact absurd (List.cons.inj ht).1 hq
    | cons b x =>
      rw [List.cons_append, List.cons.injEq] at ht
      have hsplit : u ++ b :: x = u ++ [a] ++ x := by simp [ht.1]
      rw [hsplit]
      exact ih (not_escaped_concat u he) ht.2
  | @escaped a t v ha h ih =>
    rcases x with _ | ⟨b, _ | ⟨c, x⟩⟩
    · exact absurd (List.cons.inj ht).1 hqe.symm
    · rw [← (List.cons.inj ht).1]
      exact (escaped_concat u).2 hu
    · rw [List.cons_append, List.cons_append, List.cons.injEq, List.cons.injEq] at ht
      have hsplit : u ++ b :: c :: x = u ++ [e] ++ [a] ++ x := by simp [ht.1, ht.2.1]
      rw [hsplit]
      exact ih (not_escaped_pair hu a) ht.2.2

/-- The quotes that are not escaped are the first and the last character. -/
theorem Chars.not_escaped_iff (hqe : q ≠ e) (h : Chars q e plain t v) {x y : List α}
    (hsplit : q :: (t ++ [q]) = x ++ q :: y) : ¬ Escaped e x ↔ x = [] ∨ y = [] := by
  have hopen : ¬ Escaped e [q] := not_escaped_concat [] hqe
  cases x with
  | nil => exact iff_of_true not_escaped_nil (Or.inl rfl)
  | cons b x =>
    rw [List.cons_append, List.cons.injEq] at hsplit
    obtain ⟨rfl, ht⟩ := hsplit
    rcases List.eq_nil_or_concat y with rfl | ⟨y, c, rfl⟩
    · obtain ⟨rfl, -⟩ := List.append_inj' ht rfl
      exact iff_of_true (h.not_escaped hopen) (Or.inr rfl)
    · rw [List.concat_eq_append, ← List.cons_append, ← List.append_assoc] at ht
      obtain ⟨ht, -⟩ := List.append_inj' ht rfl
      exact iff_of_false (not_not.2 (h.escaped_quote hqe hopen ht)) (by simp)

end Quoted
