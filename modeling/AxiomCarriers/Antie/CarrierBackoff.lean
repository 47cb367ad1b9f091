import AxiomCarriers.Antie.Backoff
import AxiomCarriers.Lib.Text
import Mathlib.Data.List.DropRight

/-!
# The waits of the pull carriers

After a failed attempt a pull carrier waits for the configured interval doubled per failure, at most
for half an hour; after a good one it waits for the interval itself, whatever that is.  So the wait
grows with the failures exactly for the intervals of at most half an hour
(`carrier_backoff_sound_iff`).

A failure is reported as an error when its wait has reached the cap and the one before it would not
have, with an interval of a millisecond.  So it is reported as one exactly once per streak where the
streak ends with the first wait at the cap (`down_escalates_once_iff`).
-/

namespace Antie.CarrierBackoff

open Bytes Backoff

/-- A `std::time::Duration`, in nanoseconds. -/
abbrev Duration := ℕ

def millis (ms : ℕ) : Duration := ms * 10 ^ 6

/-- `Duration::checked_mul`: the seconds have 64 bits. -/
def checkedMul (d : Duration) (n : ℕ) : Option Duration :=
  if d * n < 2 ^ 64 * 10 ^ 9 then some (d * n) else none

/-- `CARRIER_BACKOFF_MAX`. -/
def carrierBackoffMax : Duration := 30 * 60 * 10 ^ 9

/-- `carrier_backoff`; the shift is one of 32 bits. -/
def carrierBackoff (base : Duration) (failures : ℕ) : Duration :=
  if failures = 0 then base
  else min ((checkedMul base (2 ^ min failures 16 % 2 ^ 32)).getD carrierBackoffMax)
    carrierBackoffMax

/-- `validate_poll_rate`. -/
def validatePollRate (hasNetworkPull : Bool) (pollIntervalMs : ℕ) : Except Bytes Unit :=
  if hasNetworkPull ∧ pollIntervalMs < 500 then
    .error (ascii "poll_interval_ms = " ++ Text.decimal pollIntervalMs ++
      ascii " is below the 500ms floor. A POP3/IMAP carrier is configured, so this loop issues " ++
      ascii "one request per tick to a third-party server " ++ utf8 "— " ++
      Text.decimal pollIntervalMs ++ ascii "ms is ~" ++
      Text.decimal (1000 / max pollIntervalMs 1) ++
      ascii " requests/second, sustained. Raise poll_interval_ms.")
  else .ok ()

/-! ## The wait -/

/-- Nothing overflows: from the first failure on the wait is the doubled interval, up to the cap. -/
theorem carrierBackoff_eq (base : Duration) {failures : ℕ} (h : 1 ≤ failures) :
    carrierBackoff base failures = min (base * 2 ^ min failures 16) carrierBackoffMax := by
  have hshift : 2 ^ min failures 16 % 2 ^ 32 = 2 ^ min failures 16 :=
    Nat.mod_eq_of_lt (lt_of_le_of_lt (Nat.pow_le_pow_right (by decide) (min_le_right _ _))
      (by decide))
  rw [carrierBackoff, if_neg (by omega), hshift, checkedMul]
  split_ifs with hfits
  · rfl
  · rw [Option.getD_none, min_self, min_eq_right]
    exact le_trans (by decide) (not_lt.1 hfits)

theorem carrierBackoff_le {base : Duration} {failures : ℕ} (h : 1 ≤ failures) :
    carrierBackoff base failures ≤ carrierBackoffMax := by
  rw [carrierBackoff_eq base h]
  exact min_le_right _ _

/-- Among failures the wait does not shrink. -/
theorem carrierBackoff_mono {base : Duration} {m n : ℕ} (hm : 1 ≤ m) (hmn : m ≤ n) :
    carrierBackoff base m ≤ carrierBackoff base n := by
  rw [carrierBackoff_eq base hm, carrierBackoff_eq base (hm.trans hmn)]
  exact min_le_min_right _ (Nat.mul_le_mul_left _
    (Nat.pow_le_pow_right (by decide) (min_le_min_right _ hmn)))

/-- The wait does not shrink with the failures, from the first one on it is at most the cap, and it
is what the interval doubled so often comes to. -/
def Sound (base : Duration) : Prop :=
  (∀ m n, m ≤ n → carrierBackoff base m ≤ carrierBackoff base n) ∧
    ∀ n, 1 ≤ n → carrierBackoff base n ≤ carrierBackoffMax ∧
      carrierBackoff base n = min (base * 2 ^ min n 16) carrierBackoffMax

/-- For every interval: the waits are sound if and only if the interval is at most the cap. -/
theorem carrier_backoff_sound_iff (base : Duration) : Sound base ↔ base ≤ carrierBackoffMax := by
  constructor
  · rintro ⟨hmono, hle⟩
    exact (hmono 0 1 (Nat.zero_le 1)).trans (hle 1 le_rfl).1
  · intro hbase
    refine ⟨fun m n hmn => ?_, fun n hn => ⟨carrierBackoff_le hn, carrierBackoff_eq base hn⟩⟩
    rcases Nat.eq_zero_or_pos m with rfl | hm
    · rcases Nat.eq_zero_or_pos n with rfl | hn
      · exact le_rfl
      · rw [carrierBackoff_eq base hn]
        exact le_min (Nat.le_mul_of_pos_right base (by positivity)) hbase
    · exact carrierBackoff_mono hm hmn

/-- An interval of an hour is admitted, and shrinks to half an hour with the first failure. -/
theorem carrier_backoff_undercuts : ¬ ∀ (hasNetworkPull : Bool) (pollIntervalMs : ℕ),
    validatePollRate hasNetworkPull pollIntervalMs = .ok () → Sound (millis pollIntervalMs) := by
  intro h
  obtain ⟨hmono, -⟩ := h true 3600000 (by decide)
  exact absurd (hmono 0 1 (Nat.zero_le 1)) (by decide)

/-! ## The reports -/

inductive Level
  | warn
  | error
  deriving DecidableEq

/-- `report_carrier_failure`. -/
def reportCarrierFailure (wait : Duration) (failures : ℕ) : Level :=
  let prev := if failures > 1 then carrierBackoff (millis 1) (failures - 1) else 0
  if carrierBackoffMax ≤ wait ∧ prev < carrierBackoffMax then .error else .warn

/-- An attempt of a pull loop, with the wait after it and the level of its report. -/
structure Attempt where
  reached : Bool
  wait : Duration
  level : Option Level
  deriving DecidableEq

/-- The count of a loop after an attempt; the gauges play no part in it. -/
def count (failures : ℕ) (reached : Bool) : ℕ := (noteCarrierAttempt {} failures reached).2

theorem count_reached (stats : AntieStats) (failures : ℕ) :
    (noteCarrierAttempt stats failures true).2 = 0 := by
  unfold noteCarrierAttempt
  simp only [if_true]
  by_cases h : failures > 0
  · simp only [if_pos h]
    split_ifs <;> rfl
  · simp only [if_neg h]
    omega

theorem count_eq (stats : AntieStats) (failures : ℕ) (reached : Bool) :
    (noteCarrierAttempt stats failures reached).2 = count failures reached := by
  cases reached with
  | false => rfl
  | true => rw [count, count_reached, count_reached]

/-- An attempt of `pull_loop` at a count. -/
def attempt (base : Duration) (failures : ℕ) (reached : Bool) : Attempt :=
  let failures := count failures reached
  let wait := carrierBackoff base failures
  ⟨reached, wait, if reached then none else some (reportCarrierFailure wait failures)⟩

/-- The count of a loop after some attempts. -/
def failuresAfter (outcomes : List Bool) : ℕ := outcomes.foldl count 0

/-- `pull_loop` from a count on: its attempts, by whether they reach the server. -/
def pullLoop (base : Duration) : ℕ → List Bool → List Attempt
  | _, [] => []
  | failures, reached :: outcomes =>
    attempt base failures reached :: pullLoop base (count failures reached) outcomes

/-- The failed attempts at the end of some attempts. -/
def streak (before : List Attempt) : List Attempt := before.rtakeWhile (!·.reached)

/-- In every streak exactly the first attempt whose wait reaches the cap is reported as an error, and
every other one as a warning. -/
def EscalatesOnce (log : List Attempt) : Prop :=
  ∀ before a after, log = before ++ a :: after → a.reached = false →
    a.level = some (if carrierBackoffMax ≤ a.wait ∧ ∀ b ∈ streak before, b.wait < carrierBackoffMax
      then .error else .warn)

/-- The failures at the end of some outcomes. -/
def failed (before : List Bool) : ℕ := (before.rtakeWhile (!·)).length

theorem failed_reached (before : List Bool) : failed (before ++ [true]) = 0 := by
  rw [failed, List.rtakeWhile_concat_neg _ _ _ (by simp)]
  rfl

theorem failed_failed (before : List Bool) : failed (before ++ [false]) = failed before + 1 := by
  rw [failed, List.rtakeWhile_concat_pos _ _ _ (by simp), List.length_append]
  rfl

/-- The loop counts its streak, as far as 32 bits go. -/
theorem failuresAfter_eq (before : List Bool) :
    failuresAfter before = min (failed before) (2 ^ 32 - 1) := by
  induction before using List.reverseRecOn with
  | nil => rfl
  | append_singleton before reached ih =>
    rw [failuresAfter, List.foldl_append, ← failuresAfter, ih]
    cases reached with
    | true => rw [failed_reached, List.foldl_cons, List.foldl_nil, count, count_reached, Nat.zero_min]
    | false =>
      rw [failed_failed]
      show min (min (failed before) (2 ^ 32 - 1) + 1) (2 ^ 32 - 1) = _
      omega

theorem carrierBackoff_count (base : Duration) (failures : ℕ) :
    carrierBackoff base (min failures (2 ^ 32 - 1)) = carrierBackoff base failures := by
  rcases Nat.eq_zero_or_pos failures with rfl | h
  · rfl
  · rw [carrierBackoff_eq base h, carrierBackoff_eq base (le_min h (by decide)),
      show min (min failures (2 ^ 32 - 1)) 16 = min failures 16 by omega]

/-- With an interval of a millisecond the cap is never reached, so that every wait at the cap is
reported as an error. -/
theorem reportCarrierFailure_eq (wait : Duration) (failures : ℕ) :
    reportCarrierFailure wait failures = if carrierBackoffMax ≤ wait then .error else .warn := by
  have hprev : (if failures > 1 then carrierBackoff (millis 1) (failures - 1) else 0) <
      carrierBackoffMax := by
    split_ifs with h
    · rw [carrierBackoff_eq _ (by omega)]
      refine lt_of_le_of_lt (min_le_left _ _) (lt_of_le_of_lt (Nat.mul_le_mul_left _
        (Nat.pow_le_pow_right (by decide) (min_le_right _ 16))) (by decide))
    · decide
  rw [reportCarrierFailure]
  simp only [hprev, and_true]

/-- The attempt after some others, by their streak. -/
theorem attempt_failed (base : Duration) (before : List Bool) :
    attempt base (failuresAfter before) false =
      ⟨false, carrierBackoff base (failed before + 1),
        some (if carrierBackoffMax ≤ carrierBackoff base (failed before + 1) then .error
          else .warn)⟩ := by
  have hcount : count (failuresAfter before) false = min (failed before + 1) (2 ^ 32 - 1) := by
    rw [← failed_failed, ← failuresAfter_eq, failuresAfter, failuresAfter, List.foldl_append]
    rfl
  simp only [attempt, hcount, carrierBackoff_count, reportCarrierFailure_eq]
  rfl

theorem pullLoop_append (base : Duration) (failures : ℕ) (before after : List Bool) :
    pullLoop base failures (before ++ after) =
      pullLoop base failures before ++ pullLoop base (before.foldl count failures) after := by
  induction before generalizing failures with
  | nil => rfl
  | cons reached before ih => rw [List.cons_append, pullLoop, pullLoop, ih, List.foldl_cons]; rfl

/-- The waits in the streak at the end of some attempts. -/
theorem streak_waits (base : Duration) (before : List Bool) :
    (streak (pullLoop base 0 before)).map (·.wait) =
      (List.range (failed before)).map fun j => carrierBackoff base (j + 1) := by
  induction before using List.reverseRecOn with
  | nil => rfl
  | append_singleton before reached ih =>
    rw [pullLoop_append, pullLoop, pullLoop, ← failuresAfter, streak]
    cases reached with
    | true =>
      rw [List.rtakeWhile_concat_neg _ _ _ (by simp [attempt]), failed_reached]
      rfl
    | false =>
      rw [List.rtakeWhile_concat_pos _ _ _ (by simp [attempt]), failed_failed, List.range_succ,
        List.map_append, List.map_append, ← ih, attempt_failed]
      rfl

/-- The wait has not reached the cap. -/
theorem carrierBackoff_lt_iff (base : Duration) {failures : ℕ} (h : 1 ≤ failures) :
    carrierBackoff base failures < carrierBackoffMax ↔
      base * 2 ^ min failures 16 < carrierBackoffMax := by
  rw [carrierBackoff_eq base h, min_lt_iff, or_iff_left (lt_irrefl _)]

/-- The attempts of a loop before one of them, and the outcomes before its own. -/
theorem pullLoop_split {base : Duration} {failures : ℕ} {outcomes : List Bool}
    {before after : List Attempt} {a : Attempt}
    (h : pullLoop base failures outcomes = before ++ a :: after) : ∃ xs ys,
      outcomes = xs ++ a.reached :: ys ∧ before = pullLoop base failures xs ∧
        a = attempt base (xs.foldl count failures) a.reached := by
  induction outcomes generalizing failures before with
  | nil => simp [pullLoop] at h
  | cons reached outcomes ih =>
    rw [pullLoop] at h
    cases before with
    | nil =>
      obtain ⟨rfl, -⟩ := List.cons.inj h
      exact ⟨[], outcomes, rfl, rfl, rfl⟩
    | cons b before =>
      obtain ⟨rfl, hrest⟩ := List.cons.inj h
      obtain ⟨xs, ys, rfl, rfl, ha⟩ := ih hrest
      exact ⟨reached :: xs, ys, rfl, rfl, ha⟩

/-- No wait of the streak has reached the cap if and only if the last one has not. -/
theorem streak_below_iff (base : Duration) (before : List Bool) :
    (∀ b ∈ streak (pullLoop base 0 before), b.wait < carrierBackoffMax) ↔
      (1 ≤ failed before → base * 2 ^ min (failed before) 16 < carrierBackoffMax) := by
  have hwaits : (∀ b ∈ streak (pullLoop base 0 before), b.wait < carrierBackoffMax) ↔
      ∀ j < failed before, carrierBackoff base (j + 1) < carrierBackoffMax := by
    have hmap : (∀ b ∈ streak (pullLoop base 0 before), b.wait < carrierBackoffMax) ↔
        ∀ w ∈ (streak (pullLoop base 0 before)).map (·.wait), w < carrierBackoffMax := by
      simp only [List.forall_mem_map]
    rw [hmap, streak_waits, List.forall_mem_map]
    simp only [List.mem_range]
  rw [hwaits]
  constructor
  · intro h hpos
    rw [← carrierBackoff_lt_iff base hpos]
    have hlast := h (failed before - 1) (by omega)
    rwa [Nat.sub_add_cancel hpos] at hlast
  · intro h j hj
    have hpos : 1 ≤ failed before := by omega
    exact (carrierBackoff_mono (Nat.succ_pos j) hj).trans_lt
      ((carrierBackoff_lt_iff base hpos).2 (h hpos))

/-- For every run of a loop: the escalation fires once per streak if and only if no streak goes on
after an attempt whose wait has reached the cap. -/
theorem down_escalates_once_iff (base : Duration) (outcomes : List Bool) :
    EscalatesOnce (pullLoop base 0 outcomes) ↔
      ∀ before after, outcomes = before ++ false :: after → 1 ≤ failed before →
        base * 2 ^ min (failed before) 16 < carrierBackoffMax := by
  constructor
  · rintro h before after rfl
    have hlevel := h (pullLoop base 0 before) (attempt base (failuresAfter before) false) _
      (pullLoop_append base 0 before (false :: after)) rfl
    simp only [attempt_failed, Option.some.injEq, streak_below_iff] at hlevel
    by_cases hcap : carrierBackoffMax ≤ carrierBackoff base (failed before + 1)
    · simp only [hcap, if_true, true_and] at hlevel
      by_contra hlate
      rw [if_neg hlate] at hlevel
      cases hlevel
    · intro hpos
      rw [← carrierBackoff_lt_iff base hpos]
      exact (carrierBackoff_mono hpos (Nat.le_succ _)).trans_lt (not_le.1 hcap)
  · intro h log a rest hlog hfails
    obtain ⟨before, after, houtcomes, rfl, ha⟩ := pullLoop_split hlog
    rw [hfails] at houtcomes ha
    have hbelow := (streak_below_iff base before).2 (h before after houtcomes)
    rw [ha, ← failuresAfter, attempt_failed]
    exact congrArg some (if_congr (and_iff_left hbelow) rfl rfl).symm

/-- With the default interval of two seconds the tenth failure reaches the cap, and the eleventh is
an error again. -/
theorem down_escalates_again :
    ¬ ∀ (base : Duration) (outcomes : List Bool), EscalatesOnce (pullLoop base 0 outcomes) := by
  intro h
  have hlevel := h (millis 2000) (List.replicate 11 false)
    (pullLoop (millis 2000) 0 (List.replicate 10 false))
    (attempt (millis 2000) (failuresAfter (List.replicate 10 false)) false) []
    (by decide +kernel) rfl
  exact absurd hlevel (by decide +kernel)

end Antie.CarrierBackoff
