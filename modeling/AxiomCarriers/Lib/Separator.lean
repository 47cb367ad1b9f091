import Mathlib.Data.List.DropRight
import Mathlib.Tactic.Common

/-!
# Lists cut at a separator

A list that has a separator is cut at its first occurrence by `takeWhile` and `dropWhile`, and at
its last one by `lastCut`.  The pieces that a separator ends are `terminated`; a longer list has
them too (`terminated_mono`).
-/

namespace Separator

variable {α : Type*} [DecidableEq α] {c : α}

/-- What is before and behind the last occurrence of `c`. -/
def lastCut (c : α) (l : List α) : Option (List α × List α) :=
  if c ∈ l then some ((l.rdropWhile (· ≠ c)).dropLast, l.rtakeWhile (· ≠ c)) else none

/-! ## The first occurrence -/

theorem takeWhile_append {a : List α} (h : c ∉ a) (r : List α) :
    (a ++ c :: r).takeWhile (· ≠ c) = a := by
  induction a with
  | nil => simp
  | cons b a ih =>
    rw [List.mem_cons, not_or] at h
    rw [List.cons_append, List.takeWhile_cons_of_pos (by simpa using Ne.symm h.1), ih h.2]

theorem dropWhile_append {a : List α} (h : c ∉ a) (r : List α) :
    (a ++ c :: r).dropWhile (· ≠ c) = c :: r := by
  induction a with
  | nil => simp
  | cons b a ih =>
    rw [List.mem_cons, not_or] at h
    rw [List.cons_append, List.dropWhile_cons_of_pos (by simpa using Ne.symm h.1), ih h.2]

/-- What is before a first occurrence and behind it is determined. -/
theorem append_cons_inj {a a' r r' : List α} (h : c ∉ a) (h' : c ∉ a')
    (heq : a ++ c :: r = a' ++ c :: r') : a = a' ∧ r = r' := by
  have ha := congrArg (List.takeWhile (· ≠ c)) heq
  rw [takeWhile_append h, takeWhile_append h'] at ha
  subst ha
  exact ⟨rfl, by simpa using heq⟩

theorem takeWhile_eq_self {a : List α} (h : c ∉ a) : a.takeWhile (· ≠ c) = a :=
  List.takeWhile_eq_self_iff.2 fun x hx => by simpa using fun he : x = c => h (he ▸ hx)

theorem dropWhile_eq_nil {a : List α} (h : c ∉ a) : a.dropWhile (· ≠ c) = [] :=
  List.dropWhile_eq_nil_iff.2 fun x hx => by simpa using fun he : x = c => h (he ▸ hx)

theorem takeWhile_append_of_mem {a : List α} (h : c ∈ a) (r : List α) :
    (a ++ r).takeWhile (· ≠ c) = a.takeWhile (· ≠ c) := by
  obtain ⟨u, v, rfl, hu⟩ := List.eq_append_cons_of_mem h
  rw [List.append_assoc, List.cons_append, takeWhile_append hu, takeWhile_append hu]

theorem takeWhile_append_of_notMem {a : List α} (h : c ∉ a) (r : List α) :
    (a ++ r).takeWhile (· ≠ c) = a ++ r.takeWhile (· ≠ c) :=
  List.takeWhile_append_of_pos fun x hx => by simpa using fun he : x = c => h (he ▸ hx)

/-- A list has the separator, and is cut at its first occurrence, or not. -/
theorem first_cases (c : α) (l : List α) : c ∉ l ∨ ∃ a r, c ∉ a ∧ l = a ++ c :: r := by
  by_cases h : c ∈ l
  · obtain ⟨a, r, rfl, ha⟩ := List.eq_append_cons_of_mem h
    exact Or.inr ⟨a, r, ha, rfl⟩
  · exact Or.inl h

theorem notMem_takeWhile (c : α) (l : List α) : c ∉ l.takeWhile (· ≠ c) := by
  intro h
  simpa using List.mem_takeWhile_imp h

/-! ## The last occurrence -/

theorem rtakeWhile_append {b : List α} (h : c ∉ b) (a : List α) :
    (a ++ c :: b).rtakeWhile (· ≠ c) = b := by
  have hb : c ∉ b.reverse := by simpa using h
  rw [List.rtakeWhile, List.reverse_append, List.reverse_cons, List.append_assoc,
    List.singleton_append, takeWhile_append hb, List.reverse_reverse]

theorem rtakeWhile_eq_self {a : List α} (h : c ∉ a) : a.rtakeWhile (· ≠ c) = a := by
  have ha : c ∉ a.reverse := by simpa using h
  rw [List.rtakeWhile, takeWhile_eq_self ha, List.reverse_reverse]

theorem rdropWhile_append {b : List α} (h : c ∉ b) (a : List α) :
    (a ++ c :: b).rdropWhile (· ≠ c) = a ++ [c] := by
  have hb : c ∉ b.reverse := by simpa using h
  rw [List.rdropWhile, List.reverse_append, List.reverse_cons, List.append_assoc,
    List.singleton_append, dropWhile_append hb]
  simp

theorem lastCut_append {b : List α} (h : c ∉ b) (a : List α) :
    lastCut c (a ++ c :: b) = some (a, b) := by
  rw [lastCut, if_pos (by simp), rdropWhile_append h, rtakeWhile_append h, List.dropLast_concat]

theorem lastCut_eq_none {l : List α} (h : c ∉ l) : lastCut c l = none := if_neg h

/-- A list has the separator, and is cut at its last occurrence, or not. -/
theorem last_cases (c : α) (l : List α) : c ∉ l ∨ ∃ a b, c ∉ b ∧ l = a ++ c :: b := by
  rcases first_cases c l.reverse with h | ⟨a, r, ha, h⟩
  · exact Or.inl (by simpa using h)
  · refine Or.inr ⟨r.reverse, a.reverse, by simpa using ha, ?_⟩
    have hl := congrArg List.reverse h
    simpa using hl

/-- The last cut of a list whose last part is longer. -/
theorem lastCut_append_right {l : List α} (h : c ∈ l) (a : List α) :
    lastCut c (a ++ l) = (lastCut c l).map fun x => (a ++ x.1, x.2) := by
  obtain ⟨u, v, hv, rfl⟩ := (last_cases c l).resolve_left (not_not.2 h)
  rw [lastCut_append hv, ← List.append_assoc, lastCut_append hv]
  rfl

/-! ## The pieces between separators -/

omit [DecidableEq α] in
theorem notMem_of_mem_splitOnP {p : α → Bool} {l w : List α} (h : w ∈ l.splitOnP p) :
    ∀ b ∈ w, ¬ p b := by
  induction l generalizing w with
  | nil =>
    obtain rfl := List.mem_singleton.1 h
    exact fun b hb => absurd hb List.not_mem_nil
  | cons x l ih =>
    rw [List.splitOnP_cons_eq_if_modifyHead] at h
    split_ifs at h with hx
    · rcases List.mem_cons.1 h with rfl | h
      · exact fun b hb => absurd hb List.not_mem_nil
      · exact ih h
    · rcases hs : l.splitOnP p with _ | ⟨v, vs⟩
      · exact absurd hs (List.splitOnP_ne_nil p l)
      · rw [hs, List.modifyHead_cons] at h
        rw [hs] at ih
        rcases List.mem_cons.1 h with rfl | h
        · exact List.forall_mem_cons.2 ⟨hx, ih List.mem_cons_self⟩
        · exact ih (List.mem_cons_of_mem v h)

theorem notMem_of_mem_splitOn {l w : List α} (h : w ∈ l.splitOn c) : c ∉ w := by
  rw [List.splitOn_eq_splitOnP] at h
  exact fun hc => notMem_of_mem_splitOnP h c hc (beq_self_eq_true c)

/-! ## The pieces that a separator ends -/

/-- The pieces behind which there is a separator. -/
def terminated (c : α) (l : List α) : List (List α) := (l.splitOn c).dropLast

theorem terminated_of_notMem {l : List α} (h : c ∉ l) : terminated c l = [] := by
  rw [terminated, List.splitOn_eq_singleton h]
  rfl

theorem terminated_append (a r : List α) :
    terminated c (a ++ c :: r) = a.splitOn c ++ terminated c r := by
  rw [terminated, List.splitOn_append_cons_self,
    List.dropLast_append_of_ne_nil (List.splitOn_ne_nil c r)]
  rfl

theorem terminated_piece {a : List α} (h : c ∉ a) (r : List α) :
    terminated c (a ++ c :: r) = a :: terminated c r := by
  rw [terminated_append, List.splitOn_eq_singleton h]
  rfl

/-- Behind a separator the pieces are those of what follows. -/
theorem terminated_append_of_suffix {a : List α} (h : [c] <:+ a) (r : List α) :
    terminated c (a ++ r) = terminated c a ++ terminated c r := by
  obtain ⟨b, rfl⟩ := h
  rw [terminated_append b [], terminated_of_notMem List.not_mem_nil, List.append_nil,
    List.append_assoc, List.singleton_append, terminated_append]

theorem terminated_mono {a b : List α} (h : a <+: b) : terminated c a <+: terminated c b := by
  obtain ⟨t, rfl⟩ := h
  rcases last_cases c a with hno | ⟨u, v, hv, rfl⟩
  · rw [terminated_of_notMem hno]
    exact List.nil_prefix
  · rw [List.append_assoc, List.cons_append, terminated_append, terminated_append,
      terminated_of_notMem hv, List.append_nil]
    exact List.prefix_append _ _

end Separator
