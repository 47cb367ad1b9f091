import Mathlib.Data.List.Basic
import Mathlib.Tactic.Common

/-!
# Tables

A finite map as a list of pairs; the first pair of a key counts.  `put` sets a key, `del` removes
it, and every other key keeps what it had.
-/

namespace Table

variable {κ β : Type*} [DecidableEq κ]

/-- What the table holds under a key. -/
def get : List (κ × β) → κ → Option β
  | [], _ => none
  | (k, b) :: t, x => if k = x then some b else get t x

/-- The table without a key. -/
def del (t : List (κ × β)) (x : κ) : List (κ × β) := t.filter (·.1 ≠ x)

/-- The table with a key set. -/
def put (t : List (κ × β)) (x : κ) (b : β) : List (κ × β) := (x, b) :: del t x

def keys (t : List (κ × β)) : List κ := t.map (·.1)

@[simp] theorem get_nil (x : κ) : get ([] : List (κ × β)) x = none := rfl

theorem get_cons (k x : κ) (b : β) (t : List (κ × β)) :
    get ((k, b) :: t) x = if k = x then some b else get t x := rfl

@[simp] theorem get_del_self (t : List (κ × β)) (x : κ) : get (del t x) x = none := by
  induction t with
  | nil => rfl
  | cons p t ih =>
    obtain ⟨k, b⟩ := p
    by_cases h : k = x
    · simpa [del, h] using ih
    · simpa [del, h, get_cons] using ih

@[simp] theorem get_del_of_ne {x y : κ} (h : x ≠ y) (t : List (κ × β)) :
    get (del t x) y = get t y := by
  induction t with
  | nil => rfl
  | cons p t ih =>
    obtain ⟨k, b⟩ := p
    by_cases hk : k = x
    · have hky : k ≠ y := hk ▸ h
      simpa [del, hk, get_cons, h] using ih
    · by_cases hky : k = y
      · simp [del, get_cons, hky, Ne.symm h]
      · simpa [del, hk, get_cons, hky] using ih

@[simp] theorem get_put_self (t : List (κ × β)) (x : κ) (b : β) : get (put t x b) x = some b := by
  simp [put, get_cons]

@[simp] theorem get_put_of_ne {x y : κ} (h : x ≠ y) (t : List (κ × β)) (b : β) :
    get (put t x b) y = get t y := by
  simp [put, get_cons, h]

/-- Nothing under a key comes up by removing another. -/
theorem get_of_get_del {x y : κ} {t : List (κ × β)} {b : β} (h : get (del t x) y = some b) :
    x ≠ y ∧ get t y = some b := by
  by_cases hxy : x = y
  · simp [hxy] at h
  · exact ⟨hxy, by rwa [get_del_of_ne hxy] at h⟩

/-- What is under a key after another is set was there before. -/
theorem get_of_get_put {x y : κ} {t : List (κ × β)} {b d : β} (h : get (put t x b) y = some d) :
    x = y ∧ b = d ∨ x ≠ y ∧ get t y = some d := by
  by_cases hxy : x = y
  · subst hxy
    rw [get_put_self] at h
    exact Or.inl ⟨rfl, Option.some.inj h⟩
  · exact Or.inr ⟨hxy, by rwa [get_put_of_ne hxy] at h⟩

/-- Dropping pairs by their keys keeps what the other keys hold. -/
theorem get_filter (t : List (κ × β)) (keep : κ → Bool) (x : κ) :
    get (t.filter fun p => keep p.1) x = if keep x then get t x else none := by
  induction t with
  | nil => simp
  | cons p t ih =>
    obtain ⟨k, b⟩ := p
    rw [List.filter_cons]
    by_cases hk : keep k
    · by_cases hx : k = x
      · subst hx
        simp [hk, get_cons]
      · simp [hk, get_cons, hx, ih]
    · by_cases hx : k = x
      · subst hx
        simp [hk, ih]
      · simp [hk, get_cons, hx, ih]

theorem nodup_del {t : List (κ × β)} (h : (keys t).Nodup) (x : κ) : (keys (del t x)).Nodup :=
  h.sublist (List.filter_sublist.map _)

theorem nodup_put {t : List (κ × β)} (h : (keys t).Nodup) (x : κ) (b : β) :
    (keys (put t x b)).Nodup := by
  refine List.nodup_cons.2 ⟨fun hx => ?_, nodup_del h x⟩
  obtain ⟨p, hp, hpx⟩ := List.mem_map.1 hx
  exact of_decide_eq_true (List.mem_filter.1 hp).2 hpx

theorem get_eq_none {t : List (κ × β)} {x : κ} (h : x ∉ keys t) : get t x = none := by
  induction t with
  | nil => rfl
  | cons p t ih =>
    obtain ⟨k, b⟩ := p
    simp only [keys, List.map_cons, List.mem_cons, not_or] at h
    rw [get_cons, if_neg (Ne.symm h.1), ih h.2]

/-- Dropping pairs of a table with one pair for each key. -/
theorem get_filter_of_nodup {t : List (κ × β)} (h : (keys t).Nodup) (keep : κ × β → Bool) (x : κ) :
    get (t.filter keep) x = (get t x).filter fun b => keep (x, b) := by
  induction t with
  | nil => rfl
  | cons p t ih =>
    obtain ⟨k, b⟩ := p
    obtain ⟨hk, ht⟩ := List.nodup_cons.1 h
    rw [get_cons, List.filter_cons]
    split_ifs with hkeep hx hx
    · rw [get_cons, if_pos hx, ← hx, Option.filter_some, if_pos hkeep]
    · rw [get_cons, if_neg hx, ih ht]
    · rw [ih ht, get_eq_none (hx ▸ hk), ← hx, Option.filter_some, if_neg hkeep]
      rfl
    · exact ih ht

theorem mem_of_get {x : κ} {t : List (κ × β)} {b : β} (h : get t x = some b) : (x, b) ∈ t := by
  induction t with
  | nil => simp at h
  | cons p t ih =>
    obtain ⟨k, c⟩ := p
    rw [get_cons] at h
    split_ifs at h with hk
    · rw [hk, Option.some.inj h]
      exact List.mem_cons_self
    · exact List.mem_cons_of_mem _ (ih h)

theorem mem_keys_of_get {x : κ} {t : List (κ × β)} {b : β} (h : get t x = some b) : x ∈ keys t :=
  List.mem_map_of_mem (mem_of_get h)

theorem mem_keys_iff {x : κ} {t : List (κ × β)} : x ∈ keys t ↔ get t x ≠ none := by
  constructor
  · intro hx hnone
    induction t with
    | nil => exact absurd hx List.not_mem_nil
    | cons p t ih =>
      obtain ⟨k, b⟩ := p
      rw [get_cons] at hnone
      split_ifs at hnone with hk
      exact (List.mem_cons.1 hx).elim (fun he => hk he.symm) fun hx => ih hx hnone
  · intro hx
    obtain ⟨b, hb⟩ := Option.ne_none_iff_exists'.1 hx
    exact mem_keys_of_get hb

theorem mem_of_mem_del {x : κ} {t : List (κ × β)} {p : κ × β} (h : p ∈ del t x) :
    p ∈ t ∧ p.1 ≠ x :=
  ⟨(List.mem_filter.1 h).1, of_decide_eq_true (List.mem_filter.1 h).2⟩

theorem mem_of_mem_put {x : κ} {t : List (κ × β)} {b : β} {p : κ × β} (h : p ∈ put t x b) :
    p = (x, b) ∨ p ∈ t :=
  (List.mem_cons.1 h).imp_right fun hp => (mem_of_mem_del hp).1

theorem mem_keys_of_put {x y : κ} {t : List (κ × β)} {b : β} (h : y ∈ keys (put t x b)) :
    y = x ∨ y ∈ keys t := by
  obtain ⟨p, hp, rfl⟩ := List.mem_map.1 h
  rcases mem_of_mem_put hp with rfl | hp
  · exact Or.inl rfl
  · exact Or.inr (List.mem_map_of_mem hp)

theorem del_eq_self {x : κ} {t : List (κ × β)} (h : x ∉ keys t) : del t x = t :=
  List.filter_eq_self.2 fun _ hp => decide_eq_true fun he => h (he ▸ List.mem_map_of_mem hp)

/-- A table with its keys apart is what it holds under a key, and the rest. -/
theorem perm_del {x : κ} {t : List (κ × β)} {b : β} (ht : (keys t).Nodup)
    (h : get t x = some b) : t.Perm ((x, b) :: del t x) := by
  induction t with
  | nil => simp at h
  | cons p t ih =>
    obtain ⟨k, d⟩ := p
    obtain ⟨hk, ht⟩ := List.nodup_cons.1 ht
    rw [get_cons] at h
    split_ifs at h with hkx
    · subst hkx
      obtain rfl := Option.some.inj h
      have hdel : del ((k, d) :: t) k = t := by
        rw [del, List.filter_cons_of_neg (by simp)]
        exact del_eq_self hk
      rw [hdel]
    · have hdel : del ((k, d) :: t) x = (k, d) :: del t x :=
        List.filter_cons_of_pos (by simpa using hkx)
      rw [hdel]
      exact ((ih ht h).cons (k, d)).trans (List.Perm.swap _ _ _)

/-- Removing keys one after the other. -/
theorem get_foldl_del (ks : List κ) (t : List (κ × β)) (x : κ) :
    get (ks.foldl del t) x = if x ∈ ks then none else get t x := by
  induction ks generalizing t with
  | nil => simp
  | cons k ks ih =>
    rw [List.foldl_cons, ih]
    by_cases hk : k = x
    · simp [hk]
    · simp [get_del_of_ne hk, Ne.symm hk]

/-- A table that holds nothing is empty. -/
theorem eq_nil_of_get {t : List (κ × β)} (h : ∀ x b, get t x ≠ some b) : t = [] := by
  cases t with
  | nil => rfl
  | cons p t =>
    obtain ⟨k, b⟩ := p
    exact absurd (if_pos rfl) (h k b)

end Table
