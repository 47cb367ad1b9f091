import AxiomCarriers.Antie.Supervision
import Mathlib.Algebra.Group.Nat.Defs
import Mathlib.Data.List.Induction

/-!
# The pace of the respawns

`supervision_loop` in time, while nobody stops Lambda: it polls the child, and when there is none
left it waits for the backoff and tries to spawn one.  The backoff doubles with every attempt and is
reset by a poll that finds a child, a minute after the last successful spawn.

`respawn_pacing` says this over the events alone, for every run.  A run of this loop is one of the
loop in `Supervision` (`run_supervised`).
-/

namespace Antie.Respawn

open Runs

/-- `RESPAWN_POLL_SECS`, `RESPAWN_BACKOFF_MIN_SECS`, `RESPAWN_BACKOFF_MAX_SECS` and
`RESPAWN_STABLE_SECS`. -/
def pollSecs : ℕ := 2

def backoffMinSecs : ℕ := 1

def backoffMaxSecs : ℕ := 60

def stableSecs : ℕ := 60

/-- A second in nanoseconds, the unit of all times. -/
abbrev second : ℕ := 1000000000

/-- Where the loop is. -/
inductive Pc
  /-- It sleeps for the poll interval. -/
  | poll
  /-- It sleeps for this backoff. -/
  | backoff (secs : ℕ)
  deriving DecidableEq

structure State where
  /-- There is a handle of a child. -/
  child : Bool
  lambdaAlive : Bool
  backoffSecs : ℕ
  lastSpawn : ℕ
  pc : Pc
  /-- When the loop went to sleep. -/
  clock : ℕ
  deriving DecidableEq

/-- What a poll finds: no handle, or what `try_wait` says of the child. -/
inductive Found
  | missing
  | exited
  | running
  | failed
  deriving DecidableEq

/-- The child is not known to have exited. -/
def Found.notExited (found : Found) : Bool := found = .running || found = .failed

inductive Event
  | poll (now : ℕ) (found : Found)
  /-- The attempt to spawn a child after the backoff. -/
  | respawn (now : ℕ) (ok : Bool)
  deriving DecidableEq

/-- A poll finds a child. -/
def finds (s : State) (now : ℕ) : State :=
  { s with
    lambdaAlive := true
    backoffSecs := if stableSecs ≤ (now - s.lastSpawn) / second then backoffMinSecs
      else s.backoffSecs
    clock := now }

/-- A poll finds none, or reaps it, and the loop goes to sleep for the backoff. -/
def misses (s : State) (now : ℕ) : State :=
  { s with child := false, lambdaAlive := false, pc := .backoff s.backoffSecs, clock := now }

/-- The attempt to spawn a child, if there is still none. -/
def attempt (s : State) (now : ℕ) (ok : Bool) : State :=
  { s with
    child := s.child || ok
    lambdaAlive := s.lambdaAlive || (!s.child && ok)
    lastSpawn := if !s.child && ok then now else s.lastSpawn
    backoffSecs := min (s.backoffSecs * 2) backoffMaxSecs
    pc := .poll
    clock := now }

def step (s : State) : Event → Option State
  | .poll now found =>
    if s.pc = .poll ∧ s.clock + pollSecs * second ≤ now ∧ (found = .missing ↔ s.child = false) then
      some (if found.notExited then finds s now else misses s now)
    else none
  | .respawn now ok =>
    match s.pc with
    | .backoff secs => if s.clock + secs * second ≤ now then some (attempt s now ok) else none
    | .poll => none

/-- The loop starts at `now`, with a child or without. -/
def start (child : Bool) (now : ℕ) : State := ⟨child, true, backoffMinSecs, now, .poll, now⟩

/-! ## The events -/

/-- The last successful spawn, or the start of the loop. -/
def spawnedAt (started : ℕ) (es : List Event) : ℕ :=
  es.foldl (fun t e => match e with
    | .respawn now true => now
    | _ => t) started

/-- The last event is a poll that finds the child not exited, a minute after the last successful
spawn. -/
def Stable (started : ℕ) (es : List Event) : Prop :=
  ∃ before now found, es = before ++ [.poll now found] ∧ found.notExited ∧
    spawnedAt started before + stableSecs * second ≤ now

/-- The attempts among some events. -/
def attempts (es : List Event) : ℕ := es.countP fun e => match e with
  | .respawn _ _ => true
  | .poll _ _ => false

/-- There have been `k` attempts since the last stable poll, or since the start. -/
def Attempted (started : ℕ) (es : List Event) (k : ℕ) : Prop :=
  ∃ before since, es = before ++ since ∧ (before = [] ∨ Stable started before) ∧
    (∀ soFar, soFar ≠ [] → soFar <+: since → ¬ Stable started (before ++ soFar)) ∧
    attempts since = k

/-- A poll has found the child exited, and no spawn has succeeded since. -/
def Dead (es : List Event) : Prop :=
  ∃ before now after, es = before ++ .poll now .exited :: after ∧ ∀ t, .respawn t true ∉ after

variable {started : ℕ} {es : List Event} {e : Event} {k : ℕ}

/-- Some events and another one, split in two. -/
theorem concat_eq_append_cases {before since : List Event} (h : es ++ [e] = before ++ since) :
    (since = [] ∧ before = es ++ [e]) ∨ ∃ since', since = since' ++ [e] ∧ es = before ++ since' := by
  rcases List.eq_nil_or_concat since with rfl | ⟨since', e', rfl⟩
  · exact Or.inl ⟨rfl, by rw [h, List.append_nil]⟩
  · rw [List.concat_eq_append] at h ⊢
    rw [← List.append_assoc] at h
    obtain ⟨hes, rfl⟩ := List.append_singleton_inj.1 h
    exact Or.inr ⟨since', rfl, hes⟩

theorem stable_concat_iff : Stable started (es ++ [e]) ↔ ∃ now found, e = .poll now found ∧
    found.notExited ∧ spawnedAt started es + stableSecs * second ≤ now := by
  constructor
  · rintro ⟨before, now, found, heq, hfound, hold⟩
    obtain ⟨rfl, he⟩ := List.append_singleton_inj.1 heq
    exact ⟨now, found, he, hfound, hold⟩
  · rintro ⟨now, found, rfl, hfound, hold⟩
    exact ⟨es, now, found, rfl, hfound, hold⟩

theorem attempts_concat (es : List Event) (e : Event) :
    attempts (es ++ [e]) = attempts es + attempts [e] := List.countP_append

/-- A stable poll starts the count again, and everything else goes on with it. -/
theorem attempted_concat_iff : Attempted started (es ++ [e]) k ↔
    (Stable started (es ++ [e]) ∧ k = 0) ∨
      (¬ Stable started (es ++ [e]) ∧ ∃ k', Attempted started es k' ∧ k = k' + attempts [e]) := by
  constructor
  · rintro ⟨before, since, heq, hbefore, hsince, rfl⟩
    rcases concat_eq_append_cases heq with ⟨rfl, rfl⟩ | ⟨since, rfl, rfl⟩
    · exact Or.inl ⟨hbefore.resolve_left (by simp), rfl⟩
    · refine Or.inr ⟨?_, attempts since, ⟨before, since, rfl, hbefore, fun soFar hne hle => ?_, rfl⟩,
        attempts_concat since e⟩
      · rw [List.append_assoc]
        exact hsince _ (by simp) List.prefix_rfl
      · exact hsince soFar hne (hle.trans (List.prefix_append since [e]))
  · rintro (⟨hstable, rfl⟩ | ⟨hunstable, k', ⟨before, since, rfl, hbefore, hsince, rfl⟩, rfl⟩)
    · refine ⟨es ++ [e], [], (List.append_nil _).symm, Or.inr hstable, fun soFar hne hle => ?_, rfl⟩
      exact absurd (List.prefix_nil.1 hle) hne
    · refine ⟨before, since ++ [e], List.append_assoc _ _ _, hbefore, fun soFar hne hle => ?_,
        attempts_concat since e⟩
      rcases List.prefix_concat_iff.1 hle with rfl | hle
      · rw [← List.append_assoc]
        exact hunstable
      · exact hsince soFar hne hle

theorem attempted_nil_iff : Attempted started [] k ↔ k = 0 := by
  constructor
  · rintro ⟨before, since, heq, -, -, rfl⟩
    obtain ⟨-, rfl⟩ := List.append_eq_nil_iff.1 heq.symm
    rfl
  · rintro rfl
    exact ⟨[], [], rfl, Or.inl rfl, fun soFar hne hle => absurd (List.prefix_nil.1 hle) hne, rfl⟩

theorem exists_attempted (started : ℕ) (es : List Event) : ∃ k, Attempted started es k := by
  induction es using List.reverseRecOn with
  | nil => exact ⟨0, attempted_nil_iff.2 rfl⟩
  | append_singleton es e ih =>
    obtain ⟨k, hk⟩ := ih
    by_cases hstable : Stable started (es ++ [e])
    · exact ⟨0, attempted_concat_iff.2 (Or.inl ⟨hstable, rfl⟩)⟩
    · exact ⟨_, attempted_concat_iff.2 (Or.inr ⟨hstable, k, hk, rfl⟩)⟩

/-- A death lasts until a spawn succeeds. -/
theorem dead_concat_iff : Dead (es ++ [e]) ↔
    (∃ now, e = .poll now .exited) ∨ Dead es ∧ ∀ t, e ≠ .respawn t true := by
  constructor
  · rintro ⟨before, now, after, heq, hafter⟩
    rw [List.append_cons before] at heq
    rcases concat_eq_append_cases heq with ⟨rfl, hbefore⟩ | ⟨after, rfl, rfl⟩
    · obtain ⟨-, rfl⟩ := List.append_singleton_inj.1 hbefore
      exact Or.inl ⟨now, rfl⟩
    · refine Or.inr ⟨⟨before, now, after, by simp, fun t ht => hafter t ?_⟩,
        fun t ht => hafter t ?_⟩
      · exact List.mem_append_left _ ht
      · exact List.mem_append_right _ (List.mem_singleton.2 ht.symm)
  · rintro (⟨now, rfl⟩ | ⟨⟨before, now, after, rfl, hafter⟩, he⟩)
    · exact ⟨es, now, [], rfl, by simp⟩
    · refine ⟨before, now, after ++ [e], by simp, fun t ht => ?_⟩
      rcases List.mem_append.1 ht with ht | ht
      · exact hafter t ht
      · exact he t (List.mem_singleton.1 ht).symm

/-! ## The loop keeps the pace -/

/-- What a step can do. -/
theorem step_cases {s t : State} (h : step s e = some t) :
    (∃ now found, e = .poll now found ∧ found.notExited ∧ s.pc = .poll ∧ s.child = true ∧
      t = finds s now) ∨
    (∃ now found, e = .poll now found ∧ ¬ found.notExited ∧ s.pc = .poll ∧ t = misses s now) ∨
    ∃ now ok secs, e = .respawn now ok ∧ s.pc = .backoff secs ∧ s.clock + secs * second ≤ now ∧
      t = attempt s now ok := by
  cases e with
  | poll now found =>
    rw [step] at h
    split_ifs at h with hguard hfound
    · obtain ⟨hpc, -, hchild⟩ := hguard
      have hsome : s.child = true := by
        by_contra hnone
        rw [hchild.2 (by simpa using hnone)] at hfound
        exact absurd hfound (by decide)
      exact Or.inl ⟨now, found, rfl, hfound, hpc, hsome, (Option.some.inj h).symm⟩
    · exact Or.inr (Or.inl ⟨now, found, rfl, hfound, hguard.1, (Option.some.inj h).symm⟩)
  | respawn now ok =>
    rw [step] at h
    split at h
    next secs hpc =>
      split_ifs at h with hclock
      exact Or.inr (Or.inr ⟨now, ok, secs, rfl, hpc, hclock, (Option.some.inj h).symm⟩)
    next => cases h

/-- The state after some events. -/
structure Paced (started : ℕ) (es : List Event) (s : State) : Prop where
  spawned : s.lastSpawn = spawnedAt started es
  backoff : ∀ k, Attempted started es k → s.backoffSecs = min (2 ^ k) backoffMaxSecs
  /-- While it waits there is no child, and it waits for the backoff. -/
  waiting : ∀ secs, s.pc = .backoff secs → s.child = false ∧ secs = s.backoffSecs
  /-- A child that has died is gone, and is known to be. -/
  dead : Dead es → s.child = false ∧ s.lambdaAlive = false

theorem paced_start (child : Bool) (started : ℕ) : Paced started [] (start child started) where
  spawned := rfl
  backoff k hk := by
    rw [attempted_nil_iff.1 hk]
    rfl
  waiting secs h := by cases h
  dead h := by
    obtain ⟨before, now, after, heq, -⟩ := h
    simp at heq

theorem stable_elapsed_iff (lastSpawn now : ℕ) :
    stableSecs ≤ (now - lastSpawn) / second ↔ lastSpawn + stableSecs * second ≤ now := by
  rw [Nat.le_div_iff_mul_le (by decide)]
  simp only [stableSecs, second]
  omega

/-- The backoff after another attempt. -/
theorem double_backoff (k : ℕ) :
    min (min (2 ^ k) backoffMaxSecs * 2) backoffMaxSecs = min (2 ^ (k + 1)) backoffMaxSecs := by
  rw [Nat.pow_succ]
  simp only [backoffMaxSecs]
  omega

theorem spawnedAt_concat (started : ℕ) (es : List Event) (e : Event) :
    spawnedAt started (es ++ [e]) = match e with
      | .respawn now true => now
      | _ => spawnedAt started es := by
  rw [spawnedAt, List.foldl_append]
  rfl

theorem Paced.finds {s : State} (hs : Paced started es s) {now : ℕ} {found : Found}
    (hfound : found.notExited) (hpc : s.pc = .poll) (hchild : s.child = true) :
    Paced started (es ++ [.poll now found]) (finds s now) := by
  have hstable : Stable started (es ++ [.poll now found]) ↔
      stableSecs ≤ (now - s.lastSpawn) / second := by
    rw [stable_elapsed_iff, hs.spawned, stable_concat_iff]
    constructor
    · rintro ⟨_, _, heq, -, hold⟩
      obtain ⟨rfl, rfl⟩ := Event.poll.inj heq
      exact hold
    · exact fun hold => ⟨now, found, rfl, hfound, hold⟩
  refine ⟨?_, fun k hk => ?_, fun secs h => ?_, fun hdead => ?_⟩
  · rw [spawnedAt_concat]
    exact hs.spawned
  · rw [attempted_concat_iff, hstable] at hk
    rcases hk with ⟨hold, rfl⟩ | ⟨hyoung, k', hk', rfl⟩
    · exact if_pos hold
    · exact (if_neg hyoung).trans (hs.backoff _ hk')
  · exact absurd (hpc.symm.trans h) (by simp)
  · rcases dead_concat_iff.1 hdead with ⟨_, heq⟩ | ⟨hdead, -⟩
    · obtain ⟨rfl, rfl⟩ := Event.poll.inj heq
      exact absurd hfound (by decide)
    · exact absurd (hs.dead hdead).1 (by simp [hchild])

theorem Paced.misses {s : State} (hs : Paced started es s) {now : ℕ} {found : Found}
    (hfound : ¬ found.notExited) : Paced started (es ++ [.poll now found]) (misses s now) := by
  refine ⟨?_, fun k hk => ?_, fun secs h => ⟨rfl, (Pc.backoff.inj h).symm⟩, fun _ => ⟨rfl, rfl⟩⟩
  · rw [spawnedAt_concat]
    exact hs.spawned
  · rcases attempted_concat_iff.1 hk with ⟨hstable, -⟩ | ⟨-, k', hk', rfl⟩
    · obtain ⟨_, _, heq, hnot, -⟩ := stable_concat_iff.1 hstable
      obtain ⟨rfl, rfl⟩ := Event.poll.inj heq
      exact absurd hnot hfound
    · exact hs.backoff _ hk'

theorem Paced.attempt {s : State} (hs : Paced started es s) {now secs : ℕ} {ok : Bool}
    (hpc : s.pc = .backoff secs) : Paced started (es ++ [.respawn now ok]) (attempt s now ok) := by
  obtain ⟨hchild, -⟩ := hs.waiting secs hpc
  refine ⟨?_, fun k hk => ?_, fun secs h => (by cases h), fun hdead => ?_⟩
  · rw [spawnedAt_concat]
    cases ok
    · exact (if_neg (by simp)).trans hs.spawned
    · exact if_pos (by rw [hchild]; rfl)
  · rcases attempted_concat_iff.1 hk with ⟨hstable, -⟩ | ⟨-, k', hk', rfl⟩
    · obtain ⟨_, _, heq, -⟩ := stable_concat_iff.1 hstable
      cases heq
    · show min (s.backoffSecs * 2) backoffMaxSecs = _
      rw [hs.backoff _ hk']
      exact double_backoff _
  · rcases dead_concat_iff.1 hdead with ⟨_, heq⟩ | ⟨hdead, hfails⟩
    · cases heq
    · obtain ⟨-, halive⟩ := hs.dead hdead
      have hok : ok = false := by
        by_contra h
        exact hfails now (by rw [Bool.not_eq_false] at h; rw [h])
      simp [Respawn.attempt, hchild, halive, hok]

theorem paced_step {s t : State} (hs : Paced started es s) (h : step s e = some t) :
    Paced started (es ++ [e]) t := by
  rcases step_cases h with ⟨now, found, rfl, hfound, hpc, hchild, rfl⟩ |
    ⟨now, found, rfl, hfound, -, rfl⟩ | ⟨now, ok, secs, rfl, hpc, -, rfl⟩
  · exact hs.finds hfound hpc hchild
  · exact hs.misses hfound
  · exact hs.attempt hpc

theorem paced_run {child : Bool} {s : State} (h : run step (start child started) es = some s) :
    Paced started es s := by
  induction es using List.reverseRecOn generalizing s with
  | nil =>
    obtain rfl := Option.some.inj h
    exact paced_start child started
  | append_singleton es e ih =>
    obtain ⟨u, hu, he⟩ := run_append_iff.1 h
    rw [run_singleton] at he
    exact paced_step (ih hu) he

/-- In every run: after `k` attempts since the last stable poll the next attempt comes after a sleep
of `2 ^ k` seconds, at most a minute; only a stable poll makes the backoff smaller; and from the
poll that finds the child exited on `lambda_alive` is false, until a spawn succeeds. -/
theorem respawn_pacing {child : Bool} {started : ℕ} {es : List Event} {s : State}
    (h : run step (start child started) es = some s) :
    (∃ k, Attempted started es k) ∧
      (∀ k, Attempted started es k → ∀ now ok t, step s (.respawn now ok) = some t →
        s.pc = .backoff (min (2 ^ k) 60) ∧ s.clock + min (2 ^ k) 60 * second ≤ now) ∧
      (∀ e t, step s e = some t → t.backoffSecs < s.backoffSecs → Stable started (es ++ [e])) ∧
      (Dead es → s.lambdaAlive = false) ∧
      ∀ now t, step s (.respawn now true) = some t → t.lambdaAlive = true := by
  have hs := paced_run h
  have hattempt : ∀ now ok t, step s (.respawn now ok) = some t → ∃ secs, s.pc = .backoff secs ∧
      s.clock + secs * second ≤ now ∧ t = attempt s now ok := by
    intro now ok t ht
    rcases step_cases ht with ⟨_, _, heq, -⟩ | ⟨_, _, heq, -⟩ | ⟨_, _, secs, heq, hpc, hclock, ht⟩
    · cases heq
    · cases heq
    · obtain ⟨rfl, rfl⟩ := Event.respawn.inj heq
      exact ⟨secs, hpc, hclock, ht⟩
  refine ⟨exists_attempted started es, fun k hk now ok t ht => ?_, fun e t ht hlt => ?_,
    fun hdead => (hs.dead hdead).2, fun now t ht => ?_⟩
  · obtain ⟨secs, hpc, hclock, -⟩ := hattempt now ok t ht
    obtain rfl : secs = min (2 ^ k) 60 := (hs.waiting secs hpc).2.trans (hs.backoff k hk)
    exact ⟨hpc, hclock⟩
  · by_contra hunstable
    obtain ⟨k, hk⟩ := exists_attempted started es
    have hnext := (paced_step hs ht).backoff _
      (attempted_concat_iff.2 (Or.inr ⟨hunstable, k, hk, rfl⟩))
    rw [hnext, hs.backoff k hk] at hlt
    exact absurd hlt (by
      have := Nat.pow_le_pow_right (show 0 < 2 by decide) (Nat.le_add_right k (attempts [e]))
      omega)
  · obtain ⟨secs, hpc, -, rfl⟩ := hattempt now true t ht
    simp [attempt, (hs.waiting secs hpc).1]

/-- The child dies, is replaced, lives for a minute and dies again. -/
theorem respawn_pacing_minute :
    ∃ s, run step (start true 0) ([.poll (2 * second) .exited, .respawn (3 * second) true] ++
        [.poll (63 * second) .running] ++ [.poll (65 * second) .exited]) = some s ∧
      (∀ now ok t, step s (.respawn now ok) = some t → s.pc = .backoff 1 ∧ 66 * second ≤ now) ∧
      s.lambdaAlive = false := by
  have hstable : Stable 0 ([.poll (2 * second) .exited, .respawn (3 * second) true] ++
      [.poll (63 * second) .running]) :=
    stable_concat_iff.2 ⟨_, _, rfl, rfl, by decide⟩
  have hexited : ¬ Stable 0 ([.poll (2 * second) .exited, .respawn (3 * second) true] ++
      [.poll (63 * second) .running] ++ [.poll (65 * second) .exited]) := by
    rw [stable_concat_iff]
    rintro ⟨_, _, heq, hfound, -⟩
    obtain ⟨rfl, rfl⟩ := Event.poll.inj heq
    exact absurd hfound (by decide)
  have hrun : run step (start true 0) ([.poll (2 * second) .exited, .respawn (3 * second) true] ++
      [.poll (63 * second) .running] ++ [.poll (65 * second) .exited]) =
        some ⟨false, false, 1, 3 * second, .backoff 1, 65 * second⟩ := by
    decide
  obtain ⟨-, hpace, -, hdead, -⟩ := respawn_pacing hrun
  exact ⟨_, hrun, hpace 0 (attempted_concat_iff.2
      (Or.inr ⟨hexited, 0, attempted_concat_iff.2 (Or.inl ⟨hstable, rfl⟩), rfl⟩)),
    hdead (dead_concat_iff.2 (Or.inl ⟨_, rfl⟩))⟩

/-! ## The loop with its lock -/

/-- A state of `Supervision` in which the loop is where this one is, nobody stops or asks for the
lock, and the child runs if there is one. -/
structure Tracks (s : State) (t : Supervision.State) : Prop where
  flag : t.shuttingDown = false
  queue : t.queue = []
  stops : t.stops = []
  child : t.child.isSome = s.child
  runs : ∀ pid ∈ t.child, pid ∈ t.running
  loop : t.loop = match s.pc with
    | .poll => .poll
    | .backoff _ => .backoff

theorem tracks_start (child : Bool) (started : ℕ) : Tracks (start child started)
    (Supervision.start (if child then some true else none)) := by
  cases child <;> constructor <;> simp [start, Supervision.start]

/-- The loop looks at the flag and gets the lock. -/
theorem Tracks.lock {s : State} {t : Supervision.State} (h : Tracks s t) :
    run Supervision.step t [.look, .ask] = some { t with
      loop := .locking (t.loop = .backoff), queue := [.loop] } := by
  have hloop : t.loop = .poll ∨ t.loop = .backoff := by
    rw [h.loop]
    cases s.pc <;> simp
  simp [run, Supervision.step, hloop, h.flag, h.queue, FairLock.request]

/-- Every step of the loop is one that it takes with the lock; a child that `try_wait` reaps has
exited before. -/
theorem tracks_step {s s' : State} {e : Event} (he : step s e = some s') {t : Supervision.State}
    (h : Tracks s t) : ∃ es t', run Supervision.step t es = some t' ∧ Tracks s' t' := by
  rcases step_cases he with ⟨now, found, rfl, -, hpc, hchild, rfl⟩ |
    ⟨now, found, rfl, -, hpc, rfl⟩ | ⟨now, ok, secs, rfl, hpc, -, rfl⟩
  · have hloop : t.loop = .poll := by rw [h.loop, hpc]
    obtain ⟨pid, hpid⟩ := Option.isSome_iff_exists.1 (h.child.trans hchild)
    refine ⟨[.look, .ask] ++ [.inspect false], { t with loop := .poll, queue := [] },
      run_append_iff.2 ⟨_, h.lock, ?_⟩, h.flag, rfl, h.stops, h.child, h.runs, ?_⟩
    · simp [run, Supervision.step, hloop, hpid, h.runs pid hpid, FairLock.Holds, FairLock.release]
    · simp [finds, hpc]
  · have hloop : t.loop = .poll := by rw [h.loop, hpc]
    cases hchild : t.child with
    | none =>
      refine ⟨[.look, .ask] ++ [.inspect false], { t with loop := .backoff, queue := [] },
        run_append_iff.2 ⟨_, h.lock, ?_⟩, h.flag, rfl, h.stops, ?_, h.runs, rfl⟩
      · simp [run, Supervision.step, hloop, hchild, FairLock.Holds, FairLock.release]
      · simp [misses, hchild]
    | some pid =>
      refine ⟨[.look, .ask] ++ [.exit pid, .inspect false], { t with
          child := none, running := t.running.filter (· ≠ pid), loop := .backoff, queue := [] },
        run_append_iff.2 ⟨_, h.lock, ?_⟩, h.flag, rfl, h.stops, rfl, by simp, rfl⟩
      simp [run, Supervision.step, hloop, hchild, FairLock.Holds, FairLock.release]
  · have hloop : t.loop = .backoff := by rw [h.loop, hpc]
    by_cases hspawn : t.child = none ∧ ok
    · obtain ⟨hchild, rfl⟩ := hspawn
      refine ⟨[.look, .ask] ++ [.respawn true, .push false], { t with
          child := some t.next, running := t.next :: t.running, next := t.next + 1
          loop := .poll, queue := [] },
        run_append_iff.2 ⟨_, h.lock, ?_⟩, h.flag, rfl, h.stops, ?_, by simp, rfl⟩
      · simp [run, Supervision.step, hloop, hchild, FairLock.Holds, FairLock.release]
      · simp [attempt]
    · refine ⟨[.look, .ask] ++ [.respawn ok], { t with loop := .poll, queue := [] },
        run_append_iff.2 ⟨_, h.lock, ?_⟩, h.flag, rfl, h.stops, ?_, h.runs, rfl⟩
      · simp [run, Supervision.step, hloop, hspawn, FairLock.Holds, FairLock.release]
      · rw [not_and] at hspawn
        cases hchild : t.child <;> simp_all [attempt, ← h.child]

/-- A run of the loop in time is a run of the loop with its lock. -/
theorem run_supervised {child : Bool} {started : ℕ} {es : List Event} {s : State}
    (h : run step (start child started) es = some s) : ∃ es' t,
      run Supervision.step (Supervision.start (if child then some true else none)) es' = some t ∧
        Tracks s t := by
  induction es using List.reverseRecOn generalizing s with
  | nil =>
    obtain rfl := Option.some.inj h
    exact ⟨[], _, rfl, tracks_start child started⟩
  | append_singleton es e ih =>
    obtain ⟨u, hu, he⟩ := run_append_iff.1 h
    rw [run_singleton] at he
    obtain ⟨es', t, ht, htracks⟩ := ih hu
    obtain ⟨es'', t', ht', htracks'⟩ := tracks_step he htracks
    exact ⟨es' ++ es'', t', run_append_iff.2 ⟨t, ht, ht'⟩, htracks'⟩

end Antie.Respawn
