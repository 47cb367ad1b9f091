import AxiomCarriers.Lib.Table
import Mathlib.Algebra.BigOperators.Group.List.Basic
import Mathlib.Algebra.Ring.Nat
import Mathlib.Data.List.DropRight

/-!
# What is kept of a history

A process records events in a buffer that drops the oldest (`push`), and sums over them in counters
(`add`).  The buffer is the end of the history (`push_rtake`).  A reader that goes back from the
newest event, stops at the first old one and takes at most `limit` of those it wants (`scan`) gets
the last of the wanted ones that are not old, where the history is sorted (`scan_eq`).
-/

namespace History

variable {α : Type*}

/-! ## The buffer -/

/-- `append` of a `deque` with a `maxlen`. -/
def push (maxlen : ℕ) (ring : List α) (x : α) : List α :=
  if maxlen < (ring ++ [x]).length then (ring ++ [x]).tail else ring ++ [x]

theorem rtake_suffix (l : List α) (n : ℕ) : l.rtake n <:+ l := List.drop_suffix _ l

theorem length_rtake (l : List α) (n : ℕ) : (l.rtake n).length = min n l.length := by
  rw [List.rtake, List.length_drop]
  omega

theorem rtake_eq_self {l : List α} {n : ℕ} (h : l.length ≤ n) : l.rtake n = l := by
  rw [List.rtake, Nat.sub_eq_zero_of_le h, List.drop_zero]

/-- What is not in the buffer any more comes before it. -/
theorem eq_append_rtake (l : List α) (n : ℕ) : l = l.take (l.length - n) ++ l.rtake n :=
  (List.take_append_drop _ l).symm

/-- The buffer is the end of the history. -/
theorem push_rtake (maxlen : ℕ) (l : List α) (x : α) :
    push maxlen (l.rtake maxlen) x = (l ++ [x]).rtake maxlen := by
  have hlen := length_rtake l maxlen
  rcases Nat.lt_or_ge l.length maxlen with h | h
  · have hl : l.rtake maxlen = l := rtake_eq_self h.le
    have hlen : (l ++ [x]).length ≤ maxlen := by simpa using Nat.succ_le_of_lt h
    rw [hl, rtake_eq_self hlen, push, if_neg hlen.not_gt]
  · rw [Nat.min_eq_left h] at hlen
    rw [push, if_pos (by rw [List.length_append, hlen]; exact Nat.lt_succ_self maxlen)]
    rw [List.rtake, List.rtake, List.length_append, List.length_singleton, ← List.drop_one]
    rw [← List.drop_append_of_le_length (Nat.sub_le _ _), List.drop_drop]
    congr 1
    omega

/-! ## Reading back -/

/-- From the newest to the oldest: `out` is what was taken so far, the newest first. -/
def scan (old wanted : α → Bool) (limit : ℕ) : List α → List α → List α
  | [], out => out
  | x :: newestFirst, out =>
    if old x then out
    else if !wanted x then scan old wanted limit newestFirst out
    else if limit ≤ (out ++ [x]).length then out ++ [x]
    else scan old wanted limit newestFirst (out ++ [x])

theorem scan_eq_append {old wanted : α → Bool} {limit : ℕ} (xs out : List α)
    (h : out.length < limit) : scan old wanted limit xs out =
      out ++ ((xs.takeWhile (!old ·)).filter wanted).take (limit - out.length) := by
  induction xs generalizing out with
  | nil => simp [scan]
  | cons x xs ih =>
    rw [scan]
    cases hold : old x with
    | true => simp [hold]
    | false =>
      rw [if_neg Bool.false_ne_true, List.takeWhile_cons_of_pos (by simp [hold])]
      cases hw : wanted x with
      | false =>
        rw [if_pos (by rfl), ih out h, List.filter_cons_of_neg (by simp [hw])]
      | true =>
        rw [if_neg (by simp), List.filter_cons_of_pos hw]
        obtain ⟨k, hk⟩ : ∃ k, limit - out.length = k + 1 := ⟨limit - out.length - 1, by omega⟩
        rw [hk, List.take_succ_cons]
        split_ifs with hfull
        · have hk0 : k = 0 := by rw [List.length_append, List.length_singleton] at hfull; omega
          rw [hk0, List.take_zero]
        · rw [List.length_append, List.length_singleton] at hfull
          have hlen : limit - (out ++ [x]).length = k := by
            rw [List.length_append, List.length_singleton]
            omega
          rw [ih (out ++ [x]) (by rw [List.length_append, List.length_singleton]; omega), hlen,
            List.append_assoc, List.singleton_append]

/-- Where nothing after an event that is not old is old, the events that are not old are the end. -/
theorem rtakeWhile_eq_filter {p : α → Bool} {l : List α}
    (h : l.Pairwise fun x y => p x → p y) : l.rtakeWhile p = l.filter p := by
  induction l using List.reverseRecOn with
  | nil => rfl
  | append_singleton l x ih =>
    obtain ⟨hl, -, hx⟩ := List.pairwise_append.1 h
    cases hp : p x with
    | true => simp [List.rtakeWhile_concat_pos p l x hp, List.filter_append, hp, ih hl]
    | false =>
      have hnone : l.filter p = [] := List.filter_eq_nil_iff.2 fun y hy hpy => by
        simp [hx y hy x (by simp) hpy] at hp
      rw [List.rtakeWhile_concat_neg p l x (by simp [hp]), List.filter_append, hnone]
      simp [hp]

/-- The reader gets the last `limit` of the wanted events that are not old. -/
theorem scan_eq {old wanted : α → Bool} {limit : ℕ} {l : List α} (hlimit : 0 < limit)
    (h : l.Pairwise fun x y => !old x → !old y) :
    (scan old wanted limit l.reverse []).reverse =
      (l.filter fun x => !old x && wanted x).rtake limit := by
  have hscan : scan old wanted limit l.reverse [] = _ := scan_eq_append l.reverse [] hlimit
  have hwhile : l.reverse.takeWhile (!old ·) = (l.filter (!old ·)).reverse := by
    rw [← rtakeWhile_eq_filter h, List.rtakeWhile, List.reverse_reverse]
  rw [hscan, List.nil_append, List.length_nil, Nat.sub_zero, hwhile, List.filter_reverse,
    List.filter_filter, List.rtake_eq_reverse_take_reverse]
  simp only [Bool.and_comm]

/-- Nothing is missing in the buffer that is not old, where what has left it is. -/
theorem filter_rtake {p : α → Bool} {l : List α} {n : ℕ}
    (h : ∀ x ∈ l.take (l.length - n), ¬ p x) : (l.rtake n).filter p = l.filter p := by
  conv_rhs => rw [eq_append_rtake l n, List.filter_append, List.filter_eq_nil_iff.2 h]
  rfl

/-! ## Counters -/

section Counter

variable {κ : Type*} [DecidableEq κ]

/-- What a counter holds for a key. -/
def count (t : List (κ × ℕ)) (x : κ) : ℕ := (Table.get t x).getD 0

/-- `counter[x] += n`. -/
def add (t : List (κ × ℕ)) (x : κ) (n : ℕ) : List (κ × ℕ) := Table.put t x (count t x + n)

/-- The sum over all keys. -/
def total (t : List (κ × ℕ)) : ℕ := (t.map Prod.snd).sum

theorem count_add (t : List (κ × ℕ)) (x y : κ) (n : ℕ) :
    count (add t x n) y = count t y + if x = y then n else 0 := by
  rcases eq_or_ne x y with rfl | h
  · simp [count, add]
  · simp [count, add, h]

theorem total_del {t : List (κ × ℕ)} (h : (Table.keys t).Nodup) (x : κ) :
    total (Table.del t x) + count t x = total t := by
  induction t with
  | nil => rfl
  | cons p t ih =>
    obtain ⟨k, n⟩ := p
    obtain ⟨hk, ht⟩ := List.nodup_cons.1 h
    have ih := ih ht
    rcases eq_or_ne k x with rfl | hne
    · have hget : Table.get t k = none := Table.get_eq_none hk
      simp [Table.del, total, count, Table.get_cons, hget] at ih ⊢
      omega
    · simp [Table.del, total, count, Table.get_cons, hne] at ih ⊢
      omega

theorem total_add {t : List (κ × ℕ)} (h : (Table.keys t).Nodup) (x : κ) (n : ℕ) :
    total (add t x n) = total t + n := by
  have hdel := total_del h x
  have hput : total (add t x n) = count t x + n + total (Table.del t x) := rfl
  omega

theorem nodup_add {t : List (κ × ℕ)} (h : (Table.keys t).Nodup) (x : κ) (n : ℕ) :
    (Table.keys (add t x n)).Nodup := Table.nodup_put h x _

end Counter

end History
