import Mathlib.Data.List.Induction
import Mathlib.Algebra.Group.Nat.Defs

/-!
# The rate limiter of TOT

`RateLimiter` (`tot/src/main.rs`) counts the calls of a window and allows the first `maxPerSec` of
them.  A window begins with the limiter or with the first call that is a second or more after the
last begin, so windows are not aligned to the clock, and a call that is denied counts as well.

`budget` is what a window has left.  The calls that are allowed until some time are within what is
left of the window that is open there (`allowed_within_window`), an interval of one second meets at
most two windows (`allowed_from_open`), and conversely a call is denied only where the window's
budget was used up by calls of that window (`spent_le_allowed`).
-/

namespace Tot

/-- `Duration::from_secs(1)`, in nanoseconds. -/
def oneSecond : ℕ := 10 ^ 9

/-- Times are nanoseconds of the monotonic clock; `count` is not bounded. -/
structure RateLimiter where
  maxPerSec : ℕ
  windowStart : ℕ
  count : ℕ
  deriving DecidableEq

namespace RateLimiter

def new (maxPerSec now : ℕ) : RateLimiter := ⟨maxPerSec, now, 0⟩

/-- The window in which a call at `now` falls. -/
def roll (r : RateLimiter) (now : ℕ) : RateLimiter :=
  if oneSecond ≤ now - r.windowStart then { r with windowStart := now, count := 0 } else r

/-- Whether the call is allowed, and the limiter after it. -/
def allow (r : RateLimiter) (now : ℕ) : Bool × RateLimiter :=
  if r.maxPerSec = 0 then (true, r)
  else
    let r := r.roll now
    let r := { r with count := r.count + 1 }
    (r.count ≤ r.maxPerSec, r)

/-- The limiter after the calls. -/
def after : RateLimiter → List ℕ → RateLimiter
  | r, [] => r
  | r, now :: times => ((r.allow now).2).after times

/-- The calls that are allowed. -/
def allowed : RateLimiter → List ℕ → List ℕ
  | _, [] => []
  | r, now :: times =>
    if (r.allow now).1 then now :: ((r.allow now).2).allowed times
    else ((r.allow now).2).allowed times

/-- How many calls the open window still allows. -/
def budget (r : RateLimiter) : ℕ := r.maxPerSec - r.count

/-- The calls of an interval of one second. -/
def within (a : ℕ) (times : List ℕ) : List ℕ := times.filter fun t => a ≤ t ∧ t < a + oneSecond

variable {r : RateLimiter} {now a : ℕ} {times before : List ℕ}

@[simp] theorem maxPerSec_roll : (r.roll now).maxPerSec = r.maxPerSec := by
  unfold roll
  split <;> rfl

theorem roll_cases (r : RateLimiter) (now : ℕ) :
    (r.roll now = ⟨r.maxPerSec, now, 0⟩ ∧ r.windowStart + oneSecond ≤ now) ∨
    (r.roll now = r ∧ now < r.windowStart + oneSecond) := by
  have hpos : 0 < oneSecond := by decide
  unfold roll
  split
  · exact Or.inl ⟨rfl, by omega⟩
  · exact Or.inr ⟨rfl, by omega⟩

@[simp] theorem maxPerSec_allow : (r.allow now).2.maxPerSec = r.maxPerSec := by
  unfold allow
  split
  · rfl
  · exact maxPerSec_roll

/-- A call opens a window and is its first one, or it is one more of the open window. -/
theorem allow_cases (r : RateLimiter) (now : ℕ) (hmax : 0 < r.maxPerSec) :
    (r.allow now = (true, ⟨r.maxPerSec, now, 1⟩) ∧ r.windowStart + oneSecond ≤ now) ∨
    (r.allow now = (decide (r.count < r.maxPerSec), { r with count := r.count + 1 }) ∧
      now < r.windowStart + oneSecond) := by
  rw [allow, if_neg (by omega)]
  rcases r.roll_cases now with ⟨hroll, hlt⟩ | ⟨hroll, hlt⟩
  · exact Or.inl ⟨by simp [hroll]; omega, hlt⟩
  · exact Or.inr ⟨by rw [hroll]; rfl, hlt⟩

/-! ## Nothing is denied without a limit -/

theorem allow_zero (h : r.maxPerSec = 0) : r.allow now = (true, r) := if_pos h

theorem allowed_zero (h : r.maxPerSec = 0) (times : List ℕ) : r.allowed times = times := by
  induction times with
  | nil => rfl
  | cons now times ih => rw [allowed, allow_zero h, if_pos rfl, ih]

/-! ## What an interval of one second can hold -/

theorem mem_of_mem_allowed {t : ℕ} (h : t ∈ r.allowed times) : t ∈ times := by
  induction times generalizing r with
  | nil => exact h
  | cons now times ih =>
    rw [allowed] at h
    split at h
    · rcases List.mem_cons.1 h with rfl | h
      · exact List.mem_cons_self
      · exact List.mem_cons_of_mem _ (ih h)
    · exact List.mem_cons_of_mem _ (ih h)

/-- Calls after the interval are not in it. -/
theorem within_eq_nil (h : ∀ t ∈ times, a + oneSecond ≤ t) : within a (r.allowed times) = [] := by
  rw [within, List.filter_eq_nil_iff]
  intro t ht hin
  have := h t (mem_of_mem_allowed ht)
  simp only [decide_eq_true_eq] at hin
  omega

theorem length_within_cons_le (a t : ℕ) (times : List ℕ) :
    (within a (t :: times)).length ≤ (within a times).length + 1 := by
  unfold within
  rw [List.filter_cons]
  split <;> simp

theorem within_cons_of_lt {t : ℕ} (h : t < a) : within a (t :: times) = within a times := by
  rw [within, List.filter_cons_of_neg]
  · rfl
  · simp only [decide_eq_true_eq]
    omega

/-- A call of the open window uses up one of its budget, or is denied. -/
theorem within_of_open {k : ℕ}
    (hallow : r.allow now = (decide (r.count < r.maxPerSec), { r with count := r.count + 1 }))
    (hrest : (within a (({ r with count := r.count + 1 } : RateLimiter).allowed times)).length ≤
      ({ r with count := r.count + 1 } : RateLimiter).budget + k) :
    (within a (r.allowed (now :: times))).length ≤ r.budget + k := by
  rw [allowed, hallow]
  simp only [budget] at hrest ⊢
  by_cases hcount : r.count < r.maxPerSec
  · have hlen := length_within_cons_le a now
      (({ r with count := r.count + 1 } : RateLimiter).allowed times)
    simp only [hcount, decide_true, if_true]
    omega
  · simp only [hcount, decide_false, Bool.false_eq_true, if_false]
    omega

/-- Where the open window began in the interval, the rest of the interval is within its budget. -/
theorem allowed_within_window (hmax : 0 < r.maxPerSec) (ha : a ≤ r.windowStart)
    (hle : times.Pairwise (· ≤ ·)) : (within a (r.allowed times)).length ≤ r.budget := by
  induction times generalizing r with
  | nil => exact Nat.zero_le _
  | cons now times ih =>
    obtain ⟨hnow, hle⟩ := List.pairwise_cons.1 hle
    rcases r.allow_cases now hmax with ⟨_, hlate⟩ | ⟨hallow, -⟩
    · -- The next window begins after the interval.
      rw [within_eq_nil]
      · exact Nat.zero_le _
      · intro t ht
        rcases List.mem_cons.1 ht with rfl | ht
        · omega
        · have := hnow t ht
          omega
    · exact within_of_open (k := 0) hallow (ih (r := { r with count := r.count + 1 }) hmax ha hle)

/-- From the begin of the interval on there is what the open window has left and one window more. -/
theorem allowed_from_open (hmax : 0 < r.maxPerSec) (ha : ∀ t ∈ times, a ≤ t)
    (hle : times.Pairwise (· ≤ ·)) :
    (within a (r.allowed times)).length ≤ r.budget + r.maxPerSec := by
  induction times generalizing r with
  | nil => exact Nat.zero_le _
  | cons now times ih =>
    obtain ⟨-, htail⟩ := List.pairwise_cons.1 hle
    rcases r.allow_cases now hmax with ⟨hallow, -⟩ | ⟨hallow, -⟩
    · have hrest := allowed_within_window (r := ⟨r.maxPerSec, now, 1⟩) hmax
        (ha now List.mem_cons_self) htail
      have hlen := length_within_cons_le a now
        ((⟨r.maxPerSec, now, 1⟩ : RateLimiter).allowed times)
      simp only [allowed, hallow, if_true]
      simp only [budget] at hrest
      omega
    · exact within_of_open hallow (ih (r := { r with count := r.count + 1 }) hmax
        (fun t ht => ha t (List.mem_cons_of_mem _ ht)) htail)

/-- Calls before the interval only use up budget. -/
theorem allowed_le_two (hmax : 0 < r.maxPerSec) (a : ℕ) (hle : times.Pairwise (· ≤ ·)) :
    (within a (r.allowed times)).length ≤ 2 * r.maxPerSec := by
  induction times generalizing r with
  | nil => exact Nat.zero_le _
  | cons now times ih =>
    by_cases hlt : now < a
    · have hrest := ih (r := (r.allow now).2) (by rwa [maxPerSec_allow])
        (List.pairwise_cons.1 hle).2
      rw [maxPerSec_allow] at hrest
      rw [allowed]
      split
      · rwa [within_cons_of_lt hlt]
      · exact hrest
    · have hfrom : ∀ t ∈ now :: times, a ≤ t := by
        intro t ht
        rcases List.mem_cons.1 ht with rfl | ht
        · omega
        · have := (List.pairwise_cons.1 hle).1 t ht
          omega
      have := allowed_from_open hmax hfrom hle
      simp only [budget] at this
      omega

/-! ## Where a call is denied -/

theorem after_append (r : RateLimiter) (times times' : List ℕ) :
    r.after (times ++ times') = (r.after times).after times' := by
  induction times generalizing r with
  | nil => rfl
  | cons now times ih => exact ih _

theorem allowed_append (r : RateLimiter) (times times' : List ℕ) :
    r.allowed (times ++ times') = r.allowed times ++ (r.after times).allowed times' := by
  induction times generalizing r with
  | nil => rfl
  | cons now times ih =>
    rw [List.cons_append, allowed, allowed, ih]
    split <;> rfl

@[simp] theorem maxPerSec_after (r : RateLimiter) (times : List ℕ) :
    (r.after times).maxPerSec = r.maxPerSec := by
  induction times generalizing r with
  | nil => rfl
  | cons now times ih => rw [after, ih, maxPerSec_allow]

theorem windowStart_after_le (hmax : 0 < r.maxPerSec) {t : ℕ} (hstart : r.windowStart ≤ t)
    (ht : ∀ u ∈ times, u ≤ t) : (r.after times).windowStart ≤ t := by
  induction times generalizing r with
  | nil => exact hstart
  | cons now times ih =>
    rw [after]
    refine ih (by rwa [maxPerSec_allow]) ?_ fun u hu => ht u (List.mem_cons_of_mem _ hu)
    rcases r.allow_cases now hmax with ⟨hallow, -⟩ | ⟨hallow, -⟩
    · rw [hallow]
      exact ht now List.mem_cons_self
    · rwa [hallow]

/-- What is spent of the open window was spent on calls of that window. -/
theorem spent_le_allowed (hmax : 0 < r.maxPerSec) (hcount : r.count = 0)
    (hle : (r.windowStart :: times).Pairwise (· ≤ ·)) :
    min (r.after times).count r.maxPerSec ≤
      ((r.allowed times).filter fun t => (r.after times).windowStart ≤ t).length := by
  induction times using List.reverseRecOn with
  | nil => simp [after, hcount]
  | append_singleton times now ih =>
    rw [← List.cons_append, List.pairwise_append] at hle
    have hspent := ih hle.1
    have hstart : (r.after times).windowStart ≤ now :=
      windowStart_after_le hmax (hle.2.2 _ List.mem_cons_self now (List.mem_singleton_self _))
        fun u hu => hle.2.2 u (List.mem_cons_of_mem _ hu) now (List.mem_singleton_self _)
    have hlimit : (r.after times).maxPerSec = r.maxPerSec := maxPerSec_after r times
    rw [after_append, allowed_append]
    generalize r.after times = s at hspent hstart hlimit
    rcases s.allow_cases now (hlimit ▸ hmax) with ⟨hallow, -⟩ | ⟨hallow, -⟩
    · -- The call is the first one of a new window, which counts itself.
      have hself : [now].filter (fun t => decide (now ≤ t)) = [now] := by simp
      simp only [after, allowed, hallow, if_true, List.filter_append, hself, List.length_append,
        List.length_singleton]
      omega
    · by_cases hlt : s.count < s.maxPerSec
      · simp only [after, allowed, hallow, hlt, decide_true, if_true, List.filter_append,
          List.length_append]
        simp only [hstart, decide_true, List.filter_cons_of_pos, List.filter_nil,
          List.length_singleton]
        omega
      · simp only [after, allowed, hallow, hlt, decide_false, Bool.false_eq_true, if_false,
          List.append_nil]
        omega

/-- A call is denied only where as many calls as the limit were allowed in the second before it. -/
theorem denied_of_spent (hmax : 0 < r.maxPerSec) (hcount : r.count = 0) {now : ℕ}
    (hle : (r.windowStart :: before ++ [now]).Pairwise (· ≤ ·))
    (hdenied : ((r.after before).allow now).1 = false) :
    r.maxPerSec ≤ ((r.allowed before).filter fun t => t ≤ now ∧ now < t + oneSecond).length := by
  have hspent := spent_le_allowed hmax hcount (List.pairwise_append.1 hle).1
  have hpos : 0 < (r.after before).maxPerSec := by rwa [maxPerSec_after]
  rcases (r.after before).allow_cases now hpos with ⟨hallow, -⟩ | ⟨hallow, hlt⟩
  · simp [hallow] at hdenied
  · rw [hallow] at hdenied
    simp only [decide_eq_false_iff_not, maxPerSec_after] at hdenied
    have hsub : ((r.allowed before).filter fun t => (r.after before).windowStart ≤ t).length ≤
        ((r.allowed before).filter fun t => t ≤ now ∧ now < t + oneSecond).length := by
      rw [← List.countP_eq_length_filter, ← List.countP_eq_length_filter]
      refine List.countP_mono_left fun t ht hopen => ?_
      have htnow := (List.pairwise_append.1 hle).2.2 t
        (List.mem_cons_of_mem _ (mem_of_mem_allowed ht)) now (List.mem_singleton_self _)
      simp only [decide_eq_true_eq] at hopen ⊢
      omega
    omega

end RateLimiter

/-- Whatever the calls are: one second has at most twice the limit, a call is denied only when the
limit was reached less than a second before, and no limit denies nothing. -/
theorem rateLimiter_bounds (maxPerSec created : ℕ) (times : List ℕ)
    (hle : (created :: times).Pairwise (· ≤ ·)) :
    (0 < maxPerSec → ∀ a,
      (RateLimiter.within a ((RateLimiter.new maxPerSec created).allowed times)).length ≤
        2 * maxPerSec) ∧
    (0 < maxPerSec → ∀ before now later, times = before ++ now :: later →
      (((RateLimiter.new maxPerSec created).after before).allow now).1 = false →
      maxPerSec ≤ (((RateLimiter.new maxPerSec created).allowed before).filter
        fun t => t ≤ now ∧ now < t + oneSecond).length) ∧
    (maxPerSec = 0 → (RateLimiter.new maxPerSec created).allowed times = times) := by
  refine ⟨fun hmax a => ?_, fun hmax before now later htimes => ?_, fun hzero => ?_⟩
  · exact RateLimiter.allowed_le_two (r := RateLimiter.new maxPerSec created) hmax a
      (List.pairwise_cons.1 hle).2
  · refine RateLimiter.denied_of_spent (r := RateLimiter.new maxPerSec created) hmax rfl ?_
    refine hle.sublist ?_
    rw [htimes, List.cons_append]
    exact List.Sublist.cons_cons _ (List.Sublist.append_left
      (List.singleton_sublist.2 List.mem_cons_self) before)
  · exact RateLimiter.allowed_zero hzero times

/-- Two windows of a limit of two that begin less than a second apart: the last call is denied. -/
theorem rateLimiter_bounds_two :
    (RateLimiter.new 2 0).allowed [999999999, 999999999, 1000000000, 1000000001, 1000000002] =
      [999999999, 999999999, 1000000000, 1000000001] ∧
    (RateLimiter.within 999999999 ((RateLimiter.new 2 0).allowed
      [999999999, 999999999, 1000000000, 1000000001, 1000000002])).length ≤ 4 :=
  ⟨by decide, (rateLimiter_bounds 2 0 [999999999, 999999999, 1000000000, 1000000001, 1000000002]
    (by decide)).1 (by decide) 999999999⟩

end Tot
