import AxiomCarriers.Lib.Bytes
import AxiomCarriers.Lib.Run
import Mathlib.Algebra.Group.Nat.Defs
import Mathlib.Data.List.Perm.Basic

/-!
# The backoff gauges of the pull carriers

Every pull loop keeps its own count of consecutive failures and passes it to `noteCarrierAttempt`,
which moves three gauges shared by all loops.  A loop polls (`pull_loop`), or waits in IDLE
(`run_imap_carrier`) until the server turns out not to know IDLE and it falls back to polling; the
polling loop starts with a count of its own.  Beside the program's variables the state records the
current failure streak of every loop and the number of failed attempts; an attempt is a call of
`noteCarrierAttempt`.

The gauges are exact (`Exact`) along every run whose steps meet `Sound`: no loop falls back while it
is failing, and none recovers from the longest streak while a shorter one lasts.
-/

namespace Antie.Backoff

open Bytes Runs

/-- The gauges of `AntieStats` that a carrier attempt moves. -/
structure AntieStats where
  carrierFailuresTotal : ℕ := 0
  carriersInBackoff : ℕ := 0
  carrierConsecutiveFailures : ℕ := 0
  deriving DecidableEq

/-- `note_carrier_attempt`: one attempt of a loop, with the loop's count before and after it.  The
gauges are 64 bits wide and wrap around; the count is 32 bits wide and saturates. -/
def noteCarrierAttempt (stats : AntieStats) (failures : ℕ) (reached : Bool) : AntieStats × ℕ :=
  if reached then
    if failures > 0 then
      let stats' := { stats with
        carriersInBackoff := (stats.carriersInBackoff + (2 ^ 64 - 1)) % 2 ^ 64 }
      if stats.carriersInBackoff = 1 then
        ({ stats' with carrierConsecutiveFailures := 0 }, 0)
      else (stats', 0)
    else (stats, failures)
  else
    let inBackoff :=
      if failures = 0 then (stats.carriersInBackoff + 1) % 2 ^ 64 else stats.carriersInBackoff
    let failures := min (failures + 1) (2 ^ 32 - 1)
    ({ carrierFailuresTotal := (stats.carrierFailuresTotal + 1) % 2 ^ 64
       carriersInBackoff := inBackoff
       carrierConsecutiveFailures := max stats.carrierConsecutiveFailures failures }, failures)

/-- Where a loop is: waiting in IDLE, about to note the failure of its IDLE session, or polling. -/
inductive Phase
  | idle
  | failing
  | poll
  deriving DecidableEq

structure PullLoop where
  phase : Phase
  /-- The loop's variable `failures`. -/
  failures : ℕ
  /-- The failed attempts since the last one that reached the server. -/
  streak : ℕ
  deriving DecidableEq

structure State where
  loops : List PullLoop
  stats : AntieStats
  /-- The failed attempts of all loops. -/
  failed : ℕ
  deriving DecidableEq

/-- The gateway starts its loops, each in IDLE or polling. -/
def start (idles : List Bool) : State :=
  ⟨idles.map fun idle => ⟨if idle then .idle else .poll, 0, 0⟩, {}, 0⟩

/-- The loop `l` at `i` notes an attempt and goes on in `phase`. -/
def attempt (s : State) (i : ℕ) (l : PullLoop) (reached : Bool) (phase : Phase) : State :=
  let (stats, failures) := noteCarrierAttempt s.stats l.failures reached
  { loops := s.loops.set i ⟨phase, failures, if reached then 0 else l.streak + 1⟩
    stats
    failed := if reached then s.failed else s.failed + 1 }

inductive Event
  /-- An iteration of `run_imap_carrier` up to the result of `idle_wait`: whether the fetch before
  it reached the server, and the error's text if it failed. -/
  | idleWait (i : ℕ) (fetched : Bool) (result : Except Bytes Bool)
  /-- The failure of an IDLE session is noted after the fetch that reached the server. -/
  | noteFailure (i : ℕ)
  /-- An iteration of `pull_loop`. -/
  | pull (i : ℕ) (reached : Bool)

/-- The error's text says that the server does not know IDLE. -/
def notSupported (msg : Bytes) : Bool := ascii "IdleNotSupported" <:+: msg

/-- One iteration of a loop, or the part of it between two attempts that it notes. -/
def step (s : State) : Event → Option State
  | .idleWait i fetched result =>
    match s.loops[i]? with
    | some l =>
      if l.phase = .idle then
        match result with
        | .ok _ => some (attempt s i l true .idle)
        | .error msg =>
          -- the polling loop declares its own count
          if notSupported msg then some { s with loops := s.loops.set i ⟨.poll, 0, l.streak⟩ }
          else if fetched then some (attempt s i l true .failing)
          else some (attempt s i l false .idle)
      else none
    | none => none
  | .noteFailure i =>
    match s.loops[i]? with
    | some l => if l.phase = .failing then some (attempt s i l false .idle) else none
    | none => none
  | .pull i reached =>
    match s.loops[i]? with
    | some l => if l.phase = .poll then some (attempt s i l reached .poll) else none
    | none => none

/-- The loops that are failing. -/
def failing (loops : List PullLoop) : ℕ := loops.countP fun l => 0 < l.streak

/-- The longest current failure streak, 0 when no loop is failing. -/
def longestStreak (loops : List PullLoop) : ℕ := (loops.map PullLoop.streak).foldr max 0

/-- The gauges say what their documentation promises. -/
def Exact (s : State) : Prop :=
  s.stats.carriersInBackoff = failing s.loops ∧
    s.stats.carrierFailuresTotal = s.failed ∧
    s.stats.carrierConsecutiveFailures = longestStreak s.loops

instance (s : State) : Decidable (Exact s) := inferInstanceAs (Decidable (_ ∧ _ ∧ _))

/-- The attempt of loop `l` at `i` leaves the gauges exact: no counter is full when it fails, and
when it recovers it was the only failing loop or another one has failed at least as often. -/
def Fits (s : State) (i : ℕ) (l : PullLoop) (reached : Bool) : Prop :=
  if reached then
    l.failures = 0 ∨ (∀ l' ∈ s.loops.eraseIdx i, l'.failures = 0) ∨
      ∃ l' ∈ s.loops.eraseIdx i, l.failures ≤ l'.failures
  else l.failures + 1 < 2 ^ 32 ∧ s.stats.carrierFailuresTotal + 1 < 2 ^ 64 ∧
    s.stats.carriersInBackoff + 1 < 2 ^ 64

instance (s : State) (i : ℕ) (l : PullLoop) (reached : Bool) : Decidable (Fits s i l reached) := by
  unfold Fits
  infer_instance

/-- The attempt of the step fits, and a loop that falls back to polling is not failing. -/
def Sound (s : State) (e : Event) : Prop :=
  match e with
  | .idleWait i fetched result => ∀ l ∈ s.loops[i]?,
    match result with
    | .ok _ => Fits s i l true
    | .error msg => if notSupported msg then l.failures = 0 else Fits s i l fetched
  | .noteFailure i => ∀ l ∈ s.loops[i]?, Fits s i l false
  | .pull i reached => ∀ l ∈ s.loops[i]?, Fits s i l reached

instance (s : State) (e : Event) : Decidable (Sound s e) := by
  cases e with
  | idleWait i fetched result =>
    cases result <;> (simp only [Sound]; infer_instance)
  | noteFailure i => simp only [Sound]; infer_instance
  | pull i reached => simp only [Sound]; infer_instance

/-! ### One attempt -/

@[simp] theorem longestStreak_nil : longestStreak [] = 0 := rfl

@[simp] theorem longestStreak_cons (l : PullLoop) (ls : List PullLoop) :
    longestStreak (l :: ls) = max l.streak (longestStreak ls) := rfl

theorem longestStreak_perm {ls ls' : List PullLoop} (h : ls.Perm ls') :
    longestStreak ls = longestStreak ls' := (h.map _).foldr_eq 0

theorem le_longestStreak {ls : List PullLoop} {l : PullLoop} (h : l ∈ ls) :
    l.streak ≤ longestStreak ls := by
  rw [longestStreak_perm (List.perm_cons_erase h), longestStreak_cons]
  exact le_max_left _ _

/-- The loops' own counts are the streaks, and every gauge fits its word. -/
structure Inv (s : State) : Prop where
  exact : Exact s
  counts : ∀ l ∈ s.loops, l.failures = l.streak
  word : s.stats.carriersInBackoff < 2 ^ 64

theorem start_fresh {idles : List Bool} {l : PullLoop} (h : l ∈ (start idles).loops) :
    l.failures = 0 ∧ l.streak = 0 := by
  simp only [start, List.mem_map] at h
  obtain ⟨idle, -, rfl⟩ := h
  exact ⟨rfl, rfl⟩

theorem longestStreak_eq_zero {ls : List PullLoop} (h : ∀ l ∈ ls, l.streak = 0) :
    longestStreak ls = 0 := by
  induction ls with
  | nil => rfl
  | cons l ls ih =>
    have hls := ih fun l' hl' => h l' (List.mem_cons_of_mem l hl')
    have hl := h l List.mem_cons_self
    rw [longestStreak_cons, hl, hls, max_self]

theorem inv_start (idles : List Bool) : Inv (start idles) where
  exact := by
    have h : ∀ l ∈ (start idles).loops, l.streak = 0 := fun l hl => (start_fresh hl).2
    refine ⟨?_, rfl, (longestStreak_eq_zero h).symm⟩
    exact (List.countP_eq_zero.2 fun l hl => by simp [h l hl]).symm
  counts l hl := by
    obtain ⟨hf, hs⟩ := start_fresh hl
    omega
  word := by simp [start]

theorem failing_perm {ls ls' : List PullLoop} (h : ls.Perm ls') : failing ls = failing ls' :=
  h.countP_eq _

theorem failing_cons_pos {l : PullLoop} (h : 0 < l.streak) (ls : List PullLoop) :
    failing (l :: ls) = failing ls + 1 := List.countP_cons_of_pos (by simpa using h)

theorem failing_cons_zero {l : PullLoop} (h : l.streak = 0) (ls : List PullLoop) :
    failing (l :: ls) = failing ls := List.countP_cons_of_neg (by simp [h])

/-- The gauges, with one loop set apart from the others. -/
theorem exact_iff {s : State} {l : PullLoop} {others : List PullLoop}
    (h : s.loops.Perm (l :: others)) :
    Exact s ↔ s.stats.carriersInBackoff = failing (l :: others) ∧
      s.stats.carrierFailuresTotal = s.failed ∧
      s.stats.carrierConsecutiveFailures = max l.streak (longestStreak others) := by
  rw [← longestStreak_cons, ← failing_perm h, ← longestStreak_perm h]
  rfl

/-- A failed attempt: one more failure, and one more loop in backoff if the loop was not. -/
theorem attempt_failed {s : State} {i : ℕ} {l : PullLoop} (phase : Phase) (hs : Inv s)
    (hl : s.loops[i]? = some l) (hF : Fits s i l false) : Inv (attempt s i l false phase) := by
  obtain ⟨hi, rfl⟩ := List.getElem?_eq_some_iff.1 hl
  have hset := List.set_perm_cons_eraseIdx hi
  obtain ⟨hback, htotal, hlong⟩ := (exact_iff (List.getElem_cons_eraseIdx_perm hi).symm).1 hs.exact
  have hcount := hs.counts s.loops[i] (List.getElem_mem hi)
  simp only [Fits, Bool.false_eq_true, if_false] at hF
  obtain ⟨hfull, htot, hbackoff⟩ := hF
  have hsat : min (s.loops[i].failures + 1) (2 ^ 32 - 1) = s.loops[i].streak + 1 := by
    rw [hcount] at hfull ⊢
    exact min_eq_left (Nat.le_sub_one_of_lt hfull)
  constructor
  · refine (exact_iff (hset _)).2 ⟨?_, ?_, ?_⟩
    · rw [failing_cons_pos (Nat.succ_pos _)]
      show (if s.loops[i].failures = 0 then _ else _) = _
      split
      next h0 =>
        rw [failing_cons_zero (hcount.symm.trans h0)] at hback
        rw [Nat.mod_eq_of_lt hbackoff, hback]
      next h0 => rw [hback, failing_cons_pos (Nat.pos_of_ne_zero (hcount ▸ h0))]
    · show (s.stats.carrierFailuresTotal + 1) % 2 ^ 64 = s.failed + 1
      rw [Nat.mod_eq_of_lt htot, htotal]
    · show max s.stats.carrierConsecutiveFailures (min _ _) = max (_ + 1) _
      rw [hsat, hlong, Nat.max_right_comm, max_eq_right (Nat.le_succ _)]
  · intro l' hl'
    rcases List.mem_cons.1 ((hset _).mem_iff.1 hl') with rfl | hl'
    · exact hsat
    · exact hs.counts l' (List.mem_of_mem_eraseIdx hl')
  · show (if s.loops[i].failures = 0 then _ else _) < _
    split
    · exact Nat.mod_lt _ (by decide)
    · exact hs.word

/-- A streak that is not the longest ends, or the longest while no other lasts: the gauge
follows. -/
theorem longest_of_recovered {l : PullLoop} {others : List PullLoop}
    (hothers : ∀ l' ∈ others, l'.failures = l'.streak) (hl : l.failures = l.streak)
    (hF : (∀ l' ∈ others, l'.failures = 0) ∨ ∃ l' ∈ others, l.failures ≤ l'.failures) :
    (failing others = 0 ∧ longestStreak others = 0) ∨
      (max l.streak (longestStreak others) = longestStreak others ∧
        (0 < l.streak → 0 < failing others)) := by
  rcases hF with hF | ⟨l', hl', hle⟩
  · left
    have hzero : ∀ l' ∈ others, l'.streak = 0 := fun l' h => (hothers l' h) ▸ hF l' h
    exact ⟨List.countP_eq_zero.2 fun l' h => by simp [hzero l' h], longestStreak_eq_zero hzero⟩
  · right
    rw [hl, hothers l' hl'] at hle
    refine ⟨max_eq_right (hle.trans (le_longestStreak hl')), fun h0 => ?_⟩
    exact List.countP_pos_iff.2 ⟨l', hl', by simpa using h0.trans_le hle⟩

/-- An attempt that reached the server: the loop leaves backoff if it was in it. -/
theorem attempt_reached {s : State} {i : ℕ} {l : PullLoop} (phase : Phase) (hs : Inv s)
    (hl : s.loops[i]? = some l) (hF : Fits s i l true) : Inv (attempt s i l true phase) := by
  obtain ⟨hi, rfl⟩ := List.getElem?_eq_some_iff.1 hl
  have hset := List.set_perm_cons_eraseIdx hi
  obtain ⟨hback, htotal, hlong⟩ := (exact_iff (List.getElem_cons_eraseIdx_perm hi).symm).1 hs.exact
  have hcount := hs.counts s.loops[i] (List.getElem_mem hi)
  have hothers : ∀ l ∈ s.loops.eraseIdx i, l.failures = l.streak :=
    fun l h => hs.counts l (List.mem_of_mem_eraseIdx h)
  simp only [Fits, if_true] at hF
  rcases Nat.eq_zero_or_pos s.loops[i].failures with h0 | h0
  · -- the loop was not failing: only its phase changes
    have hstreak := hcount.symm.trans h0
    rw [failing_cons_zero hstreak] at hback
    have hatt : attempt s i s.loops[i] true phase =
        { s with loops := s.loops.set i ⟨phase, 0, 0⟩ } := by
      simp [attempt, noteCarrierAttempt, h0]
    rw [hatt]
    refine ⟨(exact_iff (hset _)).2 ⟨?_, htotal, ?_⟩, ?_, hs.word⟩
    · rw [failing_cons_zero rfl, hback]
    · rw [hlong, hstreak]
    · intro l' hl'
      rcases List.mem_cons.1 ((hset _).mem_iff.1 hl') with rfl | hl'
      · rfl
      · exact hothers l' hl'
  · rw [failing_cons_pos (hcount ▸ h0)] at hback
    have hpred : (s.stats.carriersInBackoff + (2 ^ 64 - 1)) % 2 ^ 64 =
        failing (s.loops.eraseIdx i) := by
      have := hs.word
      omega
    have hpos : s.loops[i].failures > 0 := h0
    simp only [attempt, noteCarrierAttempt, if_true, hpos, hpred]
    have hcounts : ∀ l' ∈ s.loops.set i ⟨phase, 0, 0⟩, l'.failures = l'.streak := by
      intro l' hl'
      rcases List.mem_cons.1 ((hset _).mem_iff.1 hl') with rfl | hl'
      · rfl
      · exact hothers l' hl'
    have hle : failing (s.loops.eraseIdx i) < 2 ^ 64 := by
      have := hs.word
      omega
    rcases longest_of_recovered hothers hcount (hF.resolve_left h0.ne') with
      ⟨hnone, hzero⟩ | ⟨hmax, hsome⟩
    · rw [if_pos (by rw [hback, hnone])]
      refine ⟨(exact_iff (hset _)).2 ⟨?_, htotal, ?_⟩, hcounts, hle⟩
      · exact (failing_cons_zero rfl _).symm
      · show 0 = max 0 _
        rw [hzero, max_self]
    · have hne : s.stats.carriersInBackoff ≠ 1 := by
        have := hsome (hcount ▸ h0)
        omega
      rw [if_neg hne]
      refine ⟨(exact_iff (hset _)).2 ⟨?_, htotal, ?_⟩, hcounts, hle⟩
      · exact (failing_cons_zero rfl _).symm
      · show s.stats.carrierConsecutiveFailures = max 0 _
        rw [hlong, hmax, Nat.zero_max]

theorem attempt_inv {s : State} {i : ℕ} {l : PullLoop} {reached : Bool} (phase : Phase)
    (hs : Inv s) (hl : s.loops[i]? = some l) (hF : Fits s i l reached) :
    Inv (attempt s i l reached phase) := by
  cases reached with
  | true => exact attempt_reached phase hs hl hF
  | false => exact attempt_failed phase hs hl hF

/-- The fallback starts a new count: the gauges stay exact when the old one was 0. -/
theorem fallback_inv {s : State} {i : ℕ} {l : PullLoop} (hs : Inv s) (hl : s.loops[i]? = some l)
    (h0 : l.failures = 0) : Inv { s with loops := s.loops.set i ⟨.poll, 0, l.streak⟩ } := by
  obtain ⟨hi, rfl⟩ := List.getElem?_eq_some_iff.1 hl
  have hset := List.set_perm_cons_eraseIdx hi
  obtain ⟨hback, htotal, hlong⟩ := (exact_iff (List.getElem_cons_eraseIdx_perm hi).symm).1 hs.exact
  have hstreak : s.loops[i].streak = 0 := (hs.counts _ (List.getElem_mem hi)).symm.trans h0
  rw [failing_cons_zero hstreak] at hback
  refine ⟨(exact_iff (l := ⟨.poll, 0, s.loops[i].streak⟩) (hset _)).2 ⟨?_, htotal, hlong⟩, ?_,
    hs.word⟩
  · exact hback.trans (failing_cons_zero (l := ⟨.poll, 0, s.loops[i].streak⟩) hstreak _).symm
  · intro l' hl'
    rcases List.mem_cons.1 ((hset _).mem_iff.1 hl') with rfl | hl'
    · exact hstreak.symm
    · exact hs.counts l' (List.mem_of_mem_eraseIdx hl')

/-! ### Runs -/

theorem step_inv (s : State) (e : Event) (s' : State) (hs : Inv s) (hC : Sound s e)
    (h : step s e = some s') : Inv s' := by
  cases e with
  | idleWait i fetched result =>
    simp only [step] at h
    split at h
    next l hl =>
      have hC := hC l hl
      split at h <;> [skip; cases h]
      cases result with
      | ok sawMail => exact Option.some.inj h ▸ attempt_inv .idle hs hl hC
      | error msg =>
        simp only at h hC
        split at h
        next hn =>
          rw [if_pos hn] at hC
          exact Option.some.inj h ▸ fallback_inv hs hl hC
        next hn =>
          rw [if_neg hn] at hC
          cases fetched with
          | true => exact Option.some.inj h ▸ attempt_inv .failing hs hl hC
          | false => exact Option.some.inj h ▸ attempt_inv .idle hs hl hC
    next => cases h
  | noteFailure i =>
    simp only [step] at h
    split at h
    next l hl =>
      split at h
      · exact Option.some.inj h ▸ attempt_inv .idle hs hl (hC l hl)
      · cases h
    next => cases h
  | pull i reached =>
    simp only [step] at h
    split at h
    next l hl =>
      split at h
      · exact Option.some.inj h ▸ attempt_inv .poll hs hl (hC l hl)
      · cases h
    next => cases h

/-- The gauges are exact after every run of any number of loops in which no loop falls back to
polling while it is failing, and none recovers from the longest streak while a shorter one lasts. -/
theorem gauges_exact {idles : List Bool} {es : List Event} {s : State}
    (hC : Along step Sound (start idles) es) (h : run step (start idles) es = some s) : Exact s :=
  (run_invariant step_inv (inv_start idles) hC h).exact

/-- Two loops fail once each and one of them recovers; a third finds no IDLE while it is well. -/
def sampleRun : List Event :=
  [.pull 1 false, .idleWait 0 true (.error (ascii "read timeout")), .noteFailure 0,
    .idleWait 2 true (.error (ascii "IdleNotSupported")), .pull 2 true, .pull 1 true]

theorem gauges_exact_sample :
    ∃ s, run step (start [true, false, true]) sampleRun = some s ∧ Exact s :=
  have hr : (run step (start [true, false, true]) sampleRun).isSome := by decide +kernel
  have ⟨s, hs⟩ := Option.isSome_iff_exists.1 hr
  ⟨s, hs, gauges_exact (by decide +kernel) hs⟩

/-- A loop that failed twice recovers while another one has failed once: the longest streak stays at
2.  A failing IDLE loop falls back to polling and reaches the server: it stays counted. -/
theorem gauges_stale :
    (∃ s, run step (start [false, false])
      [.pull 0 false, .pull 0 false, .pull 1 false, .pull 0 true] = some s ∧
      s.stats.carrierConsecutiveFailures = 2 ∧ longestStreak s.loops = 1 ∧ ¬ Exact s) ∧
    ∃ s, run step (start [true])
      [.idleWait 0 false (.error (ascii "connection refused")),
        .idleWait 0 true (.error (ascii "IdleNotSupported")), .pull 0 true] = some s ∧
      s.stats.carriersInBackoff = 1 ∧ failing s.loops = 0 ∧ ¬ Exact s :=
  ⟨⟨_, rfl, by decide, by decide, by decide⟩, ⟨_, rfl, by decide, by decide, by decide⟩⟩

end Antie.Backoff
