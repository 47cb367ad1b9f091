import AxiomCarriers.Antie.Inbox
import AxiomCarriers.Lib.Text
import Mathlib.Data.Int.GCD

/-!
# Backpressure

The poller reads Lambda's average witness time from `/stats` and records every outcome; the busy
gate multiplies the average by the number of messages behind the one at hand.

Three laws hold under a condition.  The gate compares the product, as a number, with the threshold
where the product of 64 bits has not wrapped around (`busy_gate_exact_iff`).  The gate follows the
last outcome when that is a good read, or the last good read cannot make it reject
(`follows_last_iff`).  The failures that begin a streak are announced when the counter of all
failures happens to stand at the right number (`announced_per_streak_iff`).
-/

namespace Antie.Backpressure

open Bytes Text Dispatch Inbox

/-! ## The poller -/

/-- The fields of `AntieStats` that the poller writes. -/
structure AntieStats where
  avgWitnessMs : UInt64 := 0
  lambdaStatsPollFailures : UInt64 := 0
  deriving DecidableEq

/-- `parse_avg_witness_ms`. -/
def parseAvgWitnessMs (body : Bytes) : Option UInt64 :=
  (cut (ascii "\"avg_witness_ms\":") body).bind fun p =>
    if p.2.any fun b => b = 44 || b = 125 then
      (parseUsize (trim (p.2.takeWhile fun b => !(b = 44 || b = 125)))).map Nat.toUInt64
    else none

/-- What a request for `/stats` comes to: the status as it is printed, whether it is a success, and
the text of the body. -/
inductive Response
  | unreachable (e : Bytes)
  | answered (status : Bytes) (success : Bool) (text : Except Bytes Bytes)

/-- An average, or the reason that there is none. -/
abbrev Outcome := Except Bytes UInt64

/-- The outcome of a poll in `poll_lambda_stats`. -/
def outcome : Response → Outcome
  | .unreachable e => .error (ascii "unreachable: " ++ e)
  | .answered status true (.ok text) =>
    match parseAvgWitnessMs text with
    | some v => .ok v
    | none => .error (ascii "HTTP " ++ status ++ ascii " without avg_witness_ms")
  | .answered status false (.ok _) => .error (ascii "HTTP " ++ status)
  | .answered status _ (.error e) =>
    .error (ascii "HTTP " ++ status ++ ascii ", body unreadable: " ++ e)

/-- `record_stats_poll`: the stats afterwards, and the reason to warn of. -/
def recordStatsPoll (stats : AntieStats) : Outcome → AntieStats × Option Bytes
  | .ok v => ({ stats with avgWitnessMs := v }, none)
  | .error reason =>
    let n := stats.lambdaStatsPollFailures + 1
    ({ stats with lambdaStatsPollFailures := n }, if n = 1 ∨ n % 100 = 0 then some reason else none)

/-- The stats after a history of polls. -/
def recorded (history : List Outcome) : AntieStats :=
  history.foldl (fun stats o => (recordStatsPoll stats o).1) {}

/-- `busy_estimate_exceeds`. -/
def busyEstimateExceeds (queueDepth : ℕ) (average threshold : UInt64) : Bool :=
  threshold < queueDepth.toUInt64 * average

theorem shouldRejectBusy_eq (threshold average : UInt64) (queueDepth : ℕ) :
    shouldRejectBusy threshold average queueDepth =
      (threshold ≠ 0 && average ≠ 0 && busyEstimateExceeds queueDepth average threshold) := rfl

/-! ## What the poller can read -/

/-- A body with one field. -/
def bodyOf (average : UInt64) : Bytes :=
  ascii "\x7b\"avg_witness_ms\":" ++ (decimal average.toNat ++ [125])

/-- Every average can be read from some body. -/
theorem parseAvgWitnessMs_bodyOf (average : UInt64) :
    parseAvgWitnessMs (bodyOf average) = some average := by
  have hdigit : ∀ b ∈ decimal average.toNat, 48 ≤ b ∧ b ≤ 57 := fun b hb => by
    simpa [isDigit] using isDigit_of_mem_decimal hb
  have hnoend : ∀ b ∈ decimal average.toNat, (!(b = 44 || b = 125)) = true := by
    intro b hb
    obtain ⟨hlo, hhi⟩ := hdigit b hb
    simp only [UInt8.le_iff_toNat_le] at hlo hhi
    simp only [Bool.not_eq_true', Bool.or_eq_false_iff, decide_eq_false_iff_not]
    exact ⟨by rintro rfl; exact absurd hlo (by decide), by rintro rfl; exact absurd hhi (by decide)⟩
  have hplain : ∀ b ∈ decimal average.toNat, b < 128 ∧ ¬ isWs b := by
    intro b hb
    obtain ⟨hlo, hhi⟩ := hdigit b hb
    refine ⟨UInt8.lt_of_le_of_lt hhi (show (57 : UInt8) < 128 by decide), fun hws => ?_⟩
    have hle : b ≤ 32 := by
      simp only [isWs, Bool.or_eq_true, Bool.and_eq_true, decide_eq_true_eq] at hws
      rcases hws with rfl | ⟨-, h13⟩
      · exact UInt8.le_refl 32
      · exact UInt8.le_trans h13 (show (13 : UInt8) ≤ 32 by decide)
    exact absurd (UInt8.le_trans hlo hle) (by decide)
  have hcut : cut (ascii "\"avg_witness_ms\":") (bodyOf average) =
      some ([123], decimal average.toNat ++ [125]) :=
    cut_append (by decide) (show cut _ (ascii "\x7b\"avg_witness_ms\":") = some ([123], []) by
      decide) _
  have htake : (decimal average.toNat ++ [125]).takeWhile (fun b => !(b = 44 || b = 125)) =
      decimal average.toNat := by
    rw [List.takeWhile_append_of_pos hnoend]
    simp
  rw [parseAvgWitnessMs, hcut, Option.bind_some, if_pos (by simp), htake, trim_of_forall hplain,
    parseUsize_decimal (UInt64.toNat_lt average), Option.map_some]
  exact congrArg some UInt64.ofNat_toNat

/-! ## The busy gate -/

/-- The gate compares the product of 64 bits. -/
theorem shouldRejectBusy_iff {threshold : UInt64} (ht : threshold ≠ 0) (average : UInt64)
    (queueDepth : ℕ) : shouldRejectBusy threshold average queueDepth ↔
      threshold.toNat < queueDepth * average.toNat % 2 ^ 64 := by
  have hproduct : (queueDepth.toUInt64 * average).toNat = queueDepth * average.toNat % 2 ^ 64 := by
    rw [UInt64.toNat_mul, Nat.toUInt64, UInt64.toNat_ofNat', Nat.mod_mul_mod]
  by_cases ha : average = 0
  · simp [shouldRejectBusy, ha]
  · simp [shouldRejectBusy, ht, ha, UInt64.lt_iff_toNat_lt, hproduct]

/-- The product is below `2 ^ 64`, or more than the threshold above the multiple of `2 ^ 64` that it
has reached. -/
def Fits (threshold average : UInt64) (queueDepth : ℕ) : Prop :=
  queueDepth * average.toNat < 2 ^ 64 ∨ threshold.toNat < queueDepth * average.toNat % 2 ^ 64

theorem exact_iff_fits {threshold : UInt64} (ht : threshold ≠ 0) (average : UInt64)
    (queueDepth : ℕ) :
    (shouldRejectBusy threshold average queueDepth ↔
        threshold.toNat < queueDepth * average.toNat) ↔ Fits threshold average queueDepth := by
  rw [shouldRejectBusy_iff ht, Fits]
  by_cases hfits : queueDepth * average.toNat < 2 ^ 64
  · rw [Nat.mod_eq_of_lt hfits]
    exact iff_of_true Iff.rfl (Or.inl hfits)
  · have hover : threshold.toNat < queueDepth * average.toNat :=
      threshold.toNat_lt.trans_le (not_lt.1 hfits)
    rw [iff_true_right hover, or_iff_right hfits]

/-- A message of a batch is rejected. -/
def Rejected (handled : List (Message × Handling)) (i : ℕ) : Prop :=
  (handled[i]?).map (·.2) = some .rejected

/-- The gate goes by the number of messages behind. -/
theorem dispatch_rejected_iff {threshold average : UInt64} {env : ℕ → UInt64 × Bool}
    (henv : ∀ i, (env i).1 = average) {total idx i : ℕ} {messages : List Message}
    (hi : i < messages.length) :
    Rejected (dispatch threshold env total idx messages) i ↔
      shouldRejectBusy threshold average (total - (idx + i + 1)) := by
  induction messages generalizing idx i with
  | nil => exact absurd hi (Nat.not_lt_zero i)
  | cons m messages ih =>
    cases i with
    | zero =>
      rw [Rejected, dispatch, List.getElem?_cons_zero, Option.map_some, Option.some.injEq, henv]
      cases shouldRejectBusy threshold average (total - (idx + 1)) <;> simp
    | succ i =>
      rw [show idx + (i + 1) + 1 = idx + 1 + i + 1 by omega]
      exact ih (Nat.lt_of_succ_lt_succ hi)

theorem quotient_lt_iff (threshold average : UInt64) (behind : ℕ) :
    (average ≠ 0 ∧ threshold.toNat / average.toNat < behind) ↔
      threshold.toNat < behind * average.toNat := by
  by_cases ha : average = 0
  · simp [ha]
  · have hpos : 0 < average.toNat :=
      Nat.pos_of_ne_zero fun h => ha (UInt64.toNat_inj.1 (by simpa using h))
    rw [and_iff_right ha, Nat.div_lt_iff_lt_mul hpos]

/-- The messages of a batch are those depths, the last one at the depth 0. -/
theorem dispatch_exact_iff {threshold average : UInt64} (ht : threshold ≠ 0)
    {env : ℕ → UInt64 × Bool} (henv : ∀ i, (env i).1 = average) (messages : List Message) :
    let n := messages.length
    let handled := dispatch threshold env n 0 messages
    (∀ i < n, Rejected handled i ↔
        average ≠ 0 ∧ threshold.toNat / average.toNat < n - (i + 1)) ↔
      ∀ queueDepth < n, Fits threshold average queueDepth := by
  dsimp only
  constructor
  · intro h queueDepth hdepth
    have hi := h (messages.length - 1 - queueDepth) (by omega)
    rw [dispatch_rejected_iff henv (by omega), quotient_lt_iff,
      show messages.length - (0 + (messages.length - 1 - queueDepth) + 1) = queueDepth by omega,
      show messages.length - (messages.length - 1 - queueDepth + 1) = queueDepth by omega] at hi
    exact (exact_iff_fits ht average queueDepth).1 hi
  · intro h i hi
    rw [dispatch_rejected_iff henv hi, quotient_lt_iff, Nat.zero_add]
    exact (exact_iff_fits ht average _).2 (h _ (by omega))

theorem dispatch_last {threshold average : UInt64} (ht : threshold ≠ 0)
    {env : ℕ → UInt64 × Bool} (henv : ∀ i, (env i).1 = average) (messages : List Message) :
    ¬ Rejected (dispatch threshold env messages.length 0 messages) (messages.length - 1) := by
  cases messages with
  | nil => simp [Rejected, dispatch]
  | cons m messages =>
    rw [dispatch_rejected_iff henv (by simp), shouldRejectBusy_iff ht, List.length_cons,
      show messages.length + 1 - (0 + (messages.length + 1 - 1) + 1) = 0 by omega]
    simp

/-- With a threshold the gate is exact at a queue depth if and only if the product `Fits`.  A batch
with a fixed average is rejected by the numbers of messages behind if and only if the product fits
at every depth below its length; its last message is never rejected. -/
theorem busy_gate_exact_iff {threshold : UInt64} (ht : threshold ≠ 0) (average : UInt64) :
    (∀ queueDepth : ℕ, (shouldRejectBusy threshold average queueDepth ↔
        threshold.toNat < queueDepth * average.toNat) ↔ Fits threshold average queueDepth) ∧
      ∀ (env : ℕ → UInt64 × Bool) (d : Listing) (messages : List Message),
        (∀ i, (env i).1 = average) → checkNew d = .ok messages →
        let n := messages.length
        let handled := processCarrierMessages threshold env d
        ((∀ i < n, Rejected handled i ↔
            average ≠ 0 ∧ threshold.toNat / average.toNat < n - (i + 1)) ↔
          ∀ queueDepth < n, Fits threshold average queueDepth) ∧
        ¬ Rejected handled (n - 1) := by
  refine ⟨exact_iff_fits ht average, fun env d messages henv hcheck => ?_⟩
  rw [processCarrierMessages, hcheck]
  exact ⟨dispatch_exact_iff ht henv messages, dispatch_last ht henv messages⟩

/-- At an average of 20 s the first of two messages is rejected. -/
theorem busy_gate_exact_two :
    (shouldRejectBusy 15000 20000 1 ↔ (15000 : UInt64).toNat < 1 * (20000 : UInt64).toNat) ∧
      Rejected (processCarrierMessages 15000 (fun _ => (20000, true))
        (.ok [.file (ascii "1") (.ok []), .file (ascii "2") (.ok [])])) 0 ∧
      ¬ Rejected (processCarrierMessages 15000 (fun _ => (20000, true))
        (.ok [.file (ascii "1") (.ok []), .file (ascii "2") (.ok [])])) 1 := by
  obtain ⟨hdepth, hbatch⟩ := busy_gate_exact_iff (show (15000 : UInt64) ≠ 0 by decide) 20000
  obtain ⟨hexact, hlast⟩ := hbatch (fun _ => (20000, true))
    (.ok [.file (ascii "1") (.ok []), .file (ascii "2") (.ok [])])
    [⟨ascii "1", []⟩, ⟨ascii "2", []⟩] (fun _ => rfl) (by decide +kernel)
  have hfits : ∀ queueDepth < 2, Fits 15000 20000 queueDepth := fun queueDepth h =>
    Or.inl (by have := Nat.mul_le_mul_right 20000 h; simp only [UInt64.reduceToNat]; omega)
  exact ⟨(hdepth 1).2 (hfits 1 (by decide)), (hexact.2 hfits 0 (by decide)).2 (by decide), hlast⟩

/-- Two messages behind at an average of `2 ^ 63` ms: nothing is rejected. -/
theorem busy_gate_wraps : ¬ ∀ (body : Bytes) (threshold average : UInt64) (queueDepth : ℕ),
    threshold ≠ 0 → parseAvgWitnessMs body = some average →
    (shouldRejectBusy threshold average queueDepth ↔
      threshold.toNat < queueDepth * average.toNat) := by
  intro h
  have hwrong := h (bodyOf 9223372036854775808) 15000 9223372036854775808 2 (by decide)
    (parseAvgWitnessMs_bodyOf _)
  exact absurd hwrong (by decide)

/-! ## The last reading -/

theorem recorded_concat (history : List Outcome) (o : Outcome) :
    recorded (history ++ [o]) = (recordStatsPoll (recorded history) o).1 := by
  rw [recorded, List.foldl_append]
  rfl

/-- The average of the last good read. -/
def lastRead (history : List Outcome) : Option UInt64 :=
  (history.filterMap Except.toOption).getLast?

/-- A failure leaves the average of the last good read. -/
theorem recorded_avgWitnessMs (history : List Outcome) :
    (recorded history).avgWitnessMs = (lastRead history).getD 0 := by
  induction history using List.reverseRecOn with
  | nil => rfl
  | append_singleton history o ih =>
    rw [recorded_concat, lastRead, List.filterMap_append]
    cases o with
    | ok v => simp [recordStatsPoll, Except.toOption]
    | error reason =>
      rw [List.filterMap_cons_none rfl, List.filterMap_nil, List.append_nil]
      exact ih

/-- The residues of the multiples of a number go up to the modulus less the common divisor. -/
theorem forall_mul_mod_le_iff {m : ℕ} (hm : 0 < m) (v t : ℕ) :
    (∀ n, n * v % m ≤ t) ↔ m ≤ t + v.gcd m := by
  obtain ⟨b, hb⟩ := Nat.gcd_dvd_right v m
  have hg : 0 < v.gcd m := Nat.gcd_pos_of_pos_right v hm
  constructor
  · intro h
    by_cases hlt : v.gcd m < m
    · obtain ⟨k, -, hk⟩ := Nat.exists_mul_mod_eq_gcd hlt
      have hlast : (b - 1) * k * v % m = m - v.gcd m := by
        have hle : (b - 1) * v.gcd m = m - v.gcd m := by
          rw [Nat.sub_mul, Nat.one_mul, Nat.mul_comm, ← hb]
        rw [Nat.mul_assoc, Nat.mul_comm k v, ← Nat.mul_mod_mod, hk, hle]
        exact Nat.mod_eq_of_lt (by omega)
      have := h ((b - 1) * k)
      omega
    · omega
  · intro h n
    obtain ⟨a, ha⟩ : v.gcd m ∣ n * v % m :=
      (Nat.dvd_mod_iff (Nat.gcd_dvd_right v m)).2 ((Nat.gcd_dvd_left v m).mul_left n)
    have hlt : v.gcd m * a < v.gcd m * b := by
      rw [← ha, ← hb]
      exact Nat.mod_lt _ hm
    have hle : v.gcd m * (a + 1) ≤ v.gcd m * b :=
      Nat.mul_le_mul_left _ (lt_of_mul_lt_mul_left hlt (Nat.zero_le _))
    rw [Nat.mul_succ, ← ha, ← hb] at hle
    omega

/-- An average that cannot make the gate reject at any depth. -/
def Harmless (threshold average : UInt64) : Prop :=
  threshold = 0 ∨ 2 ^ 64 ≤ threshold.toNat + average.toNat.gcd (2 ^ 64)

theorem never_rejects_iff (threshold average : UInt64) :
    (∀ queueDepth : ℕ, shouldRejectBusy threshold average queueDepth = false) ↔
      Harmless threshold average := by
  by_cases ht : threshold = 0
  · exact iff_of_true (fun _ => by simp [shouldRejectBusy, ht]) (Or.inl ht)
  · rw [Harmless, or_iff_right ht, ← forall_mul_mod_le_iff (by decide)]
    refine forall_congr' fun queueDepth => ?_
    rw [← Bool.not_eq_true, shouldRejectBusy_iff ht, not_lt]

/-- The gate goes by the last outcome: it uses the value of a good read, and is off after a failure
and before the first poll. -/
def FollowsLast (threshold : UInt64) (history : List Outcome) : Prop :=
  ∀ queueDepth : ℕ, shouldRejectBusy threshold (recorded history).avgWitnessMs queueDepth =
    match history.getLast? with
    | some (.ok v) => shouldRejectBusy threshold v queueDepth
    | _ => false

/-- The gate goes by the last outcome if and only if that is a good read, or there has been none, or
the last one is harmless. -/
theorem follows_last_iff (threshold : UInt64) (history : List Outcome) :
    FollowsLast threshold history ↔
      (∃ v, history.getLast? = some (.ok v)) ∨
        ∀ v ∈ lastRead history, Harmless threshold v := by
  rw [FollowsLast, recorded_avgWitnessMs]
  by_cases hlast : ∃ v, history.getLast? = some (.ok v)
  · obtain ⟨v, hv⟩ := hlast
    obtain ⟨before, rfl⟩ := List.getLast?_eq_some_iff.1 hv
    have hread : lastRead (before ++ [.ok v]) = some v := by
      simp [lastRead, List.filterMap_append, Except.toOption]
    rw [hread, hv]
    exact iff_of_true (fun _ => rfl) (Or.inl ⟨v, rfl⟩)
  · rw [or_iff_right hlast]
    have hoff : ∀ queueDepth : ℕ, (match history.getLast? with
        | some (.ok v) => shouldRejectBusy threshold v queueDepth
        | _ => false) = false := by
      intro queueDepth
      split
      · next v hv => exact absurd ⟨v, hv⟩ hlast
      · rfl
    simp only [hoff]
    cases lastRead history with
    | none => exact iff_of_true (fun _ => by simp [shouldRejectBusy]) (by simp)
    | some v =>
      rw [Option.getD_some, never_rejects_iff]
      simp

/-- After a failed read the gate still rejects by the read before it. -/
theorem follows_last_fails : ¬ ∀ threshold history, FollowsLast threshold history := by
  intro h
  have hoff := h 15000 [.ok 40000, .error (ascii "HTTP 401 Unauthorized")] 1
  exact absurd hoff (by decide)

/-! ## The warnings -/

/-- The failures of a history. -/
def failures (history : List Outcome) : ℕ := history.countP fun o => !o.isOk

/-- No failure has come just before. -/
def Begins (before : List Outcome) : Prop := ∀ o ∈ before.getLast?, o.isOk

/-- A failure is announced when it begins a streak, or its number is a multiple of 100, and nothing
else is. -/
def AnnouncedPerStreak (history : List Outcome) : Prop :=
  ∀ before o after, history = before ++ o :: after →
    ∀ reason, (recordStatsPoll (recorded before) o).2 = some reason ↔
      o = .error reason ∧ (Begins before ∨ 100 ∣ failures before + 1)

/-- The number of a failure lets the counter of all failures announce it as its streak asks: a
failure that begins a streak is the first one or a multiple of 100; at `2 ^ 64` and the next number,
where the counter wraps around, a streak does begin; and `2 ^ 64 + 84` is not reached. -/
def Fitting (before : List Outcome) : Prop :=
  let n := failures before + 1
  (Begins before → n = 1 ∨ 100 ∣ n ∨ n = 2 ^ 64 ∨ n = 2 ^ 64 + 1) ∧
    (n = 2 ^ 64 ∨ n = 2 ^ 64 + 1 → Begins before) ∧ n < 2 ^ 64 + 84

theorem failures_ok (history : List Outcome) (v : UInt64) :
    failures (history ++ [.ok v]) = failures history := by
  rw [failures, List.countP_append]
  rfl

theorem failures_error (history : List Outcome) (reason : Bytes) :
    failures (history ++ [.error reason]) = failures history + 1 := by
  rw [failures, List.countP_append]
  rfl

theorem failures_lt (before after : List Outcome) (reason : Bytes) :
    failures before < failures (before ++ .error reason :: after) := by
  calc failures before < failures (before ++ [.error reason]) := by
        rw [failures_error]
        exact Nat.lt_succ_self _
    _ ≤ failures (before ++ .error reason :: after) := by
        rw [List.append_cons before _ after]
        exact List.Sublist.countP_le (List.sublist_append_left _ _)

theorem recorded_failures (history : List Outcome) :
    (recorded history).lambdaStatsPollFailures.toNat = failures history % 2 ^ 64 := by
  induction history using List.reverseRecOn with
  | nil => rfl
  | append_singleton history o ih =>
    rw [recorded_concat]
    cases o with
    | ok v => rw [failures_ok, ← ih]; rfl
    | error reason =>
      rw [failures_error, ← Nat.mod_add_mod, ← ih]
      exact UInt64.toNat_add _ _

/-- A failure is announced by its number. -/
theorem announced_iff (before : List Outcome) (o : Outcome) (reason : Bytes) :
    (recordStatsPoll (recorded before) o).2 = some reason ↔ o = .error reason ∧
      ((failures before + 1) % 2 ^ 64 = 1 ∨ 100 ∣ (failures before + 1) % 2 ^ 64) := by
  have hnumber : ((recorded before).lambdaStatsPollFailures + 1).toNat =
      (failures before + 1) % 2 ^ 64 := by
    rw [UInt64.toNat_add, recorded_failures]
    exact Nat.mod_add_mod _ _ _
  cases o with
  | ok v => simp [recordStatsPoll]
  | error reason' =>
    simp only [recordStatsPoll, ← UInt64.toNat_inj, UInt64.toNat_mod, hnumber,
      Nat.dvd_iff_mod_eq_zero, Except.error.injEq]
    split_ifs with h
    · rw [Option.some.injEq]
      exact (and_iff_left h).symm
    · exact iff_of_false (by simp) fun hr => h hr.2

theorem begins_of_no_failures {before : List Outcome} (h : failures before = 0) :
    Begins before := by
  intro o ho
  have hok := List.countP_eq_zero.1 h o (List.mem_of_getLast? ho)
  simpa using hok

/-- The counter goes through every number. -/
theorem exists_failure {history : List Outcome} {n : ℕ} (h : n < failures history) :
    ∃ before reason after, history = before ++ .error reason :: after ∧ failures before = n := by
  induction history using List.reverseRecOn with
  | nil => exact absurd h (Nat.not_lt_zero n)
  | append_singleton history o ih =>
    by_cases hn : n < failures history
    · obtain ⟨before, reason, after, rfl, hbefore⟩ := ih hn
      exact ⟨before, reason, after ++ [o], by simp, hbefore⟩
    · cases o with
      | ok v => exact absurd (failures_ok history v ▸ h) hn
      | error reason =>
        rw [failures_error] at h
        exact ⟨history, reason, [], rfl, by omega⟩

/-- The remainder of a number against the number itself, up to where they disagree in any case. -/
theorem counter_agrees_iff {n : ℕ} {begins : Prop} (hpos : 0 < n) (hlt : n < 2 ^ 64 + 84)
    (hfirst : n = 1 → begins) :
    (n % 2 ^ 64 = 1 ∨ 100 ∣ n % 2 ^ 64 ↔ begins ∨ 100 ∣ n) ↔
      (begins → n = 1 ∨ 100 ∣ n ∨ n = 2 ^ 64 ∨ n = 2 ^ 64 + 1) ∧
        (n = 2 ^ 64 ∨ n = 2 ^ 64 + 1 → begins) := by
  by_cases hbegins : begins
  all_goals
    simp only [hbegins, true_or, false_or, iff_true, forall_true_left, implies_true, and_true,
      true_and, false_imp_iff, imp_false] at hfirst ⊢
    rcases lt_or_ge n (2 ^ 64) with hn | hn
    · rw [Nat.mod_eq_of_lt hn]
      omega
    · obtain ⟨k, rfl⟩ := Nat.exists_eq_add_of_le hn
      rw [Nat.add_mod_left, Nat.mod_eq_of_lt (by omega)]
      omega

/-- The failures are announced as their streaks ask if and only if the number of every failure is
`Fitting`. -/
theorem announced_per_streak_iff (history : List Outcome) :
    AnnouncedPerStreak history ↔
      ∀ before reason after, history = before ++ .error reason :: after → Fitting before := by
  have hfirst : ∀ before, failures before + 1 = 1 → Begins before := fun before h =>
    begins_of_no_failures (Nat.succ.inj h)
  constructor
  · intro h before reason after hsplit
    have hagrees : ∀ before reason after, history = before ++ .error reason :: after →
        ((failures before + 1) % 2 ^ 64 = 1 ∨ 100 ∣ (failures before + 1) % 2 ^ 64 ↔
          Begins before ∨ 100 ∣ failures before + 1) := by
      intro before reason after hsplit
      simpa only [announced_iff, true_and] using h before _ after hsplit reason
    have hlt : failures before + 1 < 2 ^ 64 + 84 := by
      by_contra hge
      -- the number `2 ^ 64 + 84` is a multiple of 100, and the counter says 84
      have hcount : 2 ^ 64 + 83 < failures history := by
        have := failures_lt before after reason
        rw [← hsplit] at this
        omega
      obtain ⟨before', reason', after', hsplit', hnumber⟩ := exists_failure hcount
      have hmiss := hagrees before' reason' after' hsplit'
      rw [hnumber] at hmiss
      exact absurd (hmiss.2 (Or.inr (by decide))) (by decide)
    obtain ⟨hbegins, hwrap⟩ := (counter_agrees_iff (Nat.succ_pos _) hlt (hfirst before)).1
      (hagrees before reason after hsplit)
    exact ⟨hbegins, hwrap, hlt⟩
  · intro h before o after hsplit reason
    rw [announced_iff]
    refine and_congr_right fun ho => ?_
    subst ho
    obtain ⟨hbegins, hwrap, hlt⟩ := h before reason after hsplit
    exact (counter_agrees_iff (Nat.succ_pos _) hlt (hfirst before)).2 ⟨hbegins, hwrap⟩

/-- The second outage of a poller is not announced. -/
theorem announced_per_streak_fails : ¬ ∀ history, AnnouncedPerStreak history := by
  intro h
  have hsecond := h [.error (ascii "HTTP 401 Unauthorized"), .ok 850,
    .error (ascii "HTTP 401 Unauthorized")] [.error (ascii "HTTP 401 Unauthorized"), .ok 850] _ []
    rfl (ascii "HTTP 401 Unauthorized")
  have hbegins : Begins [.error (ascii "HTTP 401 Unauthorized"), .ok 850] := by
    rintro o ⟨⟩
    rfl
  exact absurd (hsecond.2 ⟨rfl, Or.inl hbegins⟩) (by decide)

end Antie.Backpressure
