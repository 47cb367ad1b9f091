import Mathlib.Data.List.TakeWhile

/-!
# A fair lock

The lock is the queue of those who asked for it and have not released it, in the order of their
requests: the first holds it, the others wait.  `Ahead q a p` says that `a` gets it before anybody
with the property `p`.
-/

namespace FairLock

variable {α : Type*} {q : List α} {a b : α} {p : α → Prop}

def request (q : List α) (a : α) : List α := q ++ [a]

def release (q : List α) : List α := q.tail

def Holds (q : List α) (a : α) : Prop := q.head? = some a

theorem Holds.mem (h : Holds q a) : a ∈ q := List.mem_of_mem_head? h

theorem Holds.unique (h : Holds q a) (h' : Holds q b) : a = b :=
  Option.some.inj (h.symm.trans h')

theorem mem_request : b ∈ request q a ↔ b ∈ q ∨ b = a := by
  simp [request]

theorem mem_of_mem_release (h : b ∈ release q) : b ∈ q := List.mem_of_mem_tail h

theorem Holds.request (h : Holds q a) (b : α) : Holds (request q b) a := by
  cases q with
  | nil => cases h
  | cons c q => exact h

variable [DecidableEq α]

instance (q : List α) (a : α) : Decidable (Holds q a) := inferInstanceAs (Decidable (_ = _))

/-- `a` is in the queue, and nobody with the property `p` stands before it. -/
def Ahead (q : List α) (a : α) (p : α → Prop) : Prop :=
  a ∈ q ∧ ∀ b ∈ q.takeWhile (· ≠ a), ¬ p b

theorem Ahead.request (h : Ahead q a p) (b : α) : Ahead (request q b) a p := by
  refine ⟨mem_request.2 (Or.inl h.1), fun c hc => h.2 c ?_⟩
  obtain ⟨x, y, rfl⟩ := List.append_of_mem h.1
  simpa [FairLock.request, List.takeWhile_append] using hc

/-- Whoever asks while nobody with the property is in the queue will be ahead of them. -/
theorem ahead_of_request (h : ∀ b ∈ q, ¬ p b) (a : α) : Ahead (request q a) a p := by
  refine ⟨mem_request.2 (Or.inr rfl), fun b hb => ?_⟩
  have hb' := List.mem_takeWhile_imp hb
  rcases mem_request.1 ((List.takeWhile_prefix _).subset hb) with hq | rfl
  · exact h b hq
  · simp at hb'

/-- A release by another one leaves `a` ahead. -/
theorem Ahead.release (h : Ahead q a p) (hb : Holds q b) (hne : b ≠ a) : Ahead (release q) a p := by
  cases q with
  | nil => cases hb
  | cons c q =>
    obtain rfl := Option.some.inj hb
    obtain ⟨hmem, hnone⟩ := h
    refine ⟨(List.mem_cons.1 hmem).resolve_left hne.symm, fun d hd => hnone d ?_⟩
    rw [List.takeWhile_cons_of_pos (by simpa using hne)]
    exact List.mem_cons_of_mem c hd

/-- Who has the property and is not `a` does not hold the lock. -/
theorem Ahead.not_holds (h : Ahead q a p) (hb : p b) (hne : b ≠ a) : ¬ Holds q b := by
  intro hq
  cases q with
  | nil => cases hq
  | cons c q =>
    obtain rfl := Option.some.inj hq
    refine h.2 c ?_ hb
    rw [List.takeWhile_cons_of_pos (by simpa using hne)]
    exact List.mem_cons_self

end FairLock
