import AxiomCarriers.Antie.Heartbeats

/-!
# A stall is noticed

The watchdog ticks at an interval and skips the ticks that it misses.  A loop that has stopped
beating is among the reported ones once its bound and a turn of the watchdog have gone by, or the
watchdog has ended the process (`wedged_reported`).
-/

namespace Antie.Heartbeats

open Bytes Watchdog CarrierBackoff

variable {policy : OnStall} {s t : State} {e : Event}

/-! ## Beats -/

/-- A step leaves a heartbeat and its last beat as they are, or beats. -/
def Beats (now : ℕ) (hb hb' : LoopHeartbeat × ℕ) : Prop := hb' = hb ∨ hb' = (hb.1.beat now, now)

theorem Dispatch.Loop.step_beats {running : Bool} {now : ℕ} {l l' : Dispatch.Loop}
    {e : Dispatch.Event} (h : l.step running now e = some l') :
    Beats now (l.hb, l.beatAt) (l'.hb, l'.beatAt) := by
  have htop : Beats now (l.hb, l.beatAt) ((l.top running now).hb, (l.top running now).beatAt) := by
    cases running with
    | true => exact .inr rfl
    | false => exact .inl rfl
  have hnext (again : Bool) (left : ℕ) : Beats now (l.hb, l.beatAt)
      ((l.next running now again left).hb, (l.next running now again left).beatAt) := by
    cases left with
    | succ left => exact .inr rfl
    | zero =>
      cases again with
      | true => exact .inl rfl
      | false => exact htop
  cases hphase : l.phase <;> cases e <;> simp only [Loop.step, hphase, reduceCtorEq] at h
  case awaiting.timeout wake =>
    split at h
    case isTrue =>
      obtain rfl := Option.some.inj h
      exact .inl rfl
    case isFalse => cases h
  all_goals obtain rfl := Option.some.inj h
  case checking.checked again found => exact hnext again _
  case round.handled again left => exact hnext again left
  all_goals exact .inl rfl

namespace Pull

variable {running : Bool} {now : ℕ}

theorem Loop.top_beats (running : Bool) (l : Loop) :
    Beats now (l.hb, l.beatAt) ((l.top running now).hb, (l.top running now).beatAt) := by
  cases running with
  | true => exact .inr rfl
  | false => exact .inl rfl

theorem Loop.sleepBeating_beats (finish : ℕ) (l : Loop) : Beats now (l.hb, l.beatAt)
    ((l.sleepBeating running now finish).hb, (l.sleepBeating running now finish).beatAt) := by
  rw [Loop.sleepBeating]
  split_ifs
  · rcases (l.beat now).top_beats running with h | h <;> exact .inr h
  · exact .inr rfl

theorem Loop.delivered_beats (reached : Bool) (l : Loop) : Beats now (l.hb, l.beatAt)
    ((l.delivered running now reached).hb, (l.delivered running now reached).beatAt) := by
  rw [Loop.delivered]
  split_ifs
  · exact .inr rfl
  · exact Loop.sleepBeating_beats _ { l with failures := count l.failures reached }

theorem Loop.next_beats (left : ℕ) (l : Loop) : Beats now (l.hb, l.beatAt)
    ((l.next running now left).hb, (l.next running now left).beatAt) := by
  cases left with
  | zero => exact l.delivered_beats true
  | succ left => exact .inr rfl

theorem Loop.idleFailed_beats (l : Loop) : Beats now (l.hb, l.beatAt)
    ((l.idleFailed running now).hb, (l.idleFailed running now).beatAt) :=
  Loop.sleepBeating_beats _ { l with failures := _ }

theorem Loop.step_beats {l l' : Loop} {e : Event} (h : l.step running now e = some l') :
    Beats now (l.hb, l.beatAt) (l'.hb, l'.beatAt) := by
  cases hphase : l.phase <;> cases e <;> simp only [Loop.step, hphase, reduceCtorEq] at h
  case fetch.fetched found =>
    obtain rfl := Option.some.inj h
    cases found with
    | none => exact l.delivered_beats false
    | some found => exact l.next_beats found
  case message.handled left =>
    obtain rfl := Option.some.inj h
    exact l.next_beats left
  case opening.opened outcome =>
    obtain rfl := Option.some.inj h
    cases outcome with
    | idling | mail => exact .inl rfl
    | notSupported => exact Loop.top_beats _ { l with idle := false, failures := 0 }
    | failed => exact l.idleFailed_beats
  case idling.data deadline wake =>
    obtain rfl := Option.some.inj h
    exact .inl rfl
  case idling.dropped deadline wake =>
    obtain rfl := Option.some.inj h
    exact l.idleFailed_beats
  case idling.quiet deadline wake =>
    split_ifs at h <;> obtain rfl := Option.some.inj h
    · exact .inl rfl
    · exact .inr rfl
  case reading.line deadline line =>
    obtain rfl := Option.some.inj h
    cases line with
    | mail | other => exact .inl rfl
    | failed => exact l.idleFailed_beats
  case leaving.left done ok =>
    split_ifs at h <;> obtain rfl := Option.some.inj h
    · exact Loop.top_beats _ { l with failures := _ }
    · exact l.idleFailed_beats
  case sleeping.wake finish wake =>
    split_ifs at h
    obtain rfl := Option.some.inj h
    exact l.sleepBeating_beats finish

end Pull

/-! ## The watchdog -/

/-- Every heartbeat, with the time of its last beat. -/
def State.loops (s : State) : List (LoopHeartbeat × ℕ) :=
  (s.dispatch.hb, s.dispatch.beatAt) :: s.pulls.map fun l => (l.hb, l.beatAt)

theorem mem_beats {b : LoopHeartbeat × ℕ} (h : b ∈ s.loops) : b.1 ∈ s.beats := by
  rcases List.mem_cons.1 h with rfl | h
  · exact List.mem_cons_self
  · obtain ⟨l, hl, rfl⟩ := List.mem_map.1 h
    exact List.mem_cons_of_mem _ (List.mem_map_of_mem hl)

theorem step_loops (hstep : step policy s e = some t) :
    ∀ b' ∈ t.loops, ∃ b ∈ s.loops, Beats s.now b b' := by
  obtain ⟨-, hstep⟩ := step_cases hstep
  intro b' hb'
  cases e with
  | pass d | lambda alive | stop =>
    subst hstep
    exact ⟨b', hb', .inl rfl⟩
  | watch =>
    obtain ⟨-, -, rfl⟩ := hstep
    exact ⟨b', hb', .inl rfl⟩
  | dispatch e =>
    obtain ⟨l, hl, rfl⟩ := hstep
    rcases List.mem_cons.1 hb' with rfl | hb'
    · exact ⟨_, List.mem_cons_self, Dispatch.Loop.step_beats hl⟩
    · exact ⟨b', List.mem_cons_of_mem _ hb', .inl rfl⟩
  | pull i e =>
    obtain ⟨l, l', hl, hl', rfl⟩ := hstep
    rcases List.mem_cons.1 hb' with rfl | hb'
    · exact ⟨_, List.mem_cons_self, .inl rfl⟩
    · obtain ⟨l'', hmem, rfl⟩ := List.mem_map.1 hb'
      rcases List.mem_or_eq_of_mem_set hmem with hmem | rfl
      · exact ⟨_, List.mem_cons_of_mem _ (List.mem_map_of_mem hmem), .inl rfl⟩
      · exact ⟨(l.hb, l.beatAt),
          List.mem_cons_of_mem _ (List.mem_map_of_mem (List.mem_of_getElem? hl)),
          Pull.Loop.step_beats hl'⟩

/-- Only the watchdog changes what it keeps. -/
theorem step_unwatched (hstep : step policy s e = some t) (he : e ≠ .watch) :
    s.now ≤ t.now ∧ t.reported = s.reported ∧ t.watchAt = s.watchAt ∧ t.lastWatch = s.lastWatch ∧
      t.exit = none := by
  obtain ⟨hexit, hstep⟩ := step_cases hstep
  cases e with
  | pass d =>
    subst hstep
    exact ⟨Nat.le_add_right _ _, rfl, rfl, rfl, hexit⟩
  | lambda alive | stop =>
    subst hstep
    exact ⟨le_rfl, rfl, rfl, rfl, hexit⟩
  | dispatch e =>
    obtain ⟨l, -, rfl⟩ := hstep
    exact ⟨le_rfl, rfl, rfl, rfl, hexit⟩
  | pull i e =>
    obtain ⟨l, l', -, -, rfl⟩ := hstep
    exact ⟨le_rfl, rfl, rfl, rfl, hexit⟩
  | watch => exact absurd rfl he

/-- The ticks come an interval apart, whichever of them are skipped. -/
theorem nextTick_bounds {now watchAt : ℕ} (h : watchAt ≤ now) :
    now < nextTick now watchAt ∧ nextTick now watchAt ≤ now + stallWatchInterval := by
  rw [nextTick, stallWatchInterval, secs]
  omega

/-- While the gateway runs, the watchdog is at most `late` behind its interval. -/
def Watching (late : ℕ) (s : State) : Event → Prop
  | .pass d => s.running = true → s.now + d ≤ s.watchAt + late
  | .dispatch _ | .pull _ _ | .lambda _ | .stop | .watch => True

instance (late : ℕ) (s : State) : (e : Event) → Decidable (Watching late s e)
  | .pass d => inferInstanceAs (Decidable (s.running = true → s.now + d ≤ s.watchAt + late))
  | .dispatch _ | .pull _ _ | .lambda _ | .stop | .watch => inferInstanceAs (Decidable True)

/-- The loops that were silent past their bound at the last tick are among the reported ones, and
there are none where the watchdog would have ended the process. -/
structure Watched (policy : OnStall) (late : ℕ) (s : State) : Prop where
  lastBeat : ∀ b ∈ s.loops, b.1.lastBeat = b.2 / 10 ^ 9
  lastWatch : s.lastWatch ≤ s.now
  watchAt : s.watchAt ≤ s.lastWatch + stallWatchInterval
  inTime : s.running = true → s.now ≤ s.watchAt + late
  named : ∀ b ∈ s.loops, b.2 + secs (b.1.maxSilenceSecs + 1) ≤ s.lastWatch → b.1.name ∈ s.reported
  exit : s.exit = none → policy = .notifyAndRestart → s.reported = []
  code : ∀ code ∈ s.exit, code = stallExitCode

/-- A heartbeat that is silent for its bound and a second is stalled. -/
theorem stalled_of_silent {b : LoopHeartbeat × ℕ} (hb : b ∈ s.loops)
    (hlast : b.1.lastBeat = b.2 / 10 ^ 9) (hsilent : b.2 + secs (b.1.maxSilenceSecs + 1) ≤ s.now) :
    Stalled s.tick b.1.name := by
  refine (stalled_iff s b.1.name).2 ⟨b.1, mem_beats hb, rfl, ?_⟩
  rw [LoopHeartbeat.snapshot, hlast]
  rw [secs] at hsilent
  dsimp only
  omega

theorem Watched.watch {late : ℕ} (h : Watched policy late s) (hexit : s.exit = none)
    (hdue : s.watchAt ≤ s.now) : Watched policy late (s.watch policy) := by
  obtain ⟨hafter, hnext⟩ := nextTick_bounds hdue
  obtain ⟨kept, fresh, htick, hsub, -, hkept, hfresh⟩ := tick_eq policy s.reported s.tick
  have hpass : s.watch policy = { s with
      reported := kept ++ fresh
      exit := if fresh ≠ [] ∧ policy = .notifyAndRestart then some stallExitCode else none
      watchAt := nextTick s.now s.watchAt, lastWatch := s.now } := by
    rw [State.watch, htick]
  rw [hpass]
  refine ⟨h.lastBeat, le_rfl, hnext, fun _ => (hafter.le).trans (Nat.le_add_right _ _),
    fun b hb hsilent => ?_, fun hnone hrestart => ?_, fun code hcode => ?_⟩
  · have hstalled := stalled_of_silent hb (h.lastBeat b hb) hsilent
    rw [List.mem_append, hkept, hfresh]
    by_cases hreported : b.1.name ∈ s.reported
    · exact .inl ⟨hreported, hstalled⟩
    · exact .inr ⟨hstalled, hreported⟩
  · have hnew : fresh = [] := by
      by_contra hne
      simp [hne, hrestart] at hnone
    have hold : kept = [] := List.sublist_nil.1 (h.exit hexit hrestart ▸ hsub)
    simp [hnew, hold]
  · dsimp only at hcode
    split_ifs at hcode
    · exact (Option.mem_some.1 hcode).symm
    · cases hcode

theorem Watched.step {late : ℕ} (h : Watched policy late s) (hwatching : Watching late s e)
    (hstep : step policy s e = some t) : Watched policy late t := by
  by_cases he : e = .watch
  · subst he
    obtain ⟨hexit, -, hdue, rfl⟩ := step_cases hstep
    exact h.watch hexit hdue
  obtain ⟨hnow, hreported, hwatchAt, hlastWatch, hexit⟩ := step_unwatched hstep he
  have hloops := step_loops hstep
  refine ⟨fun b' hb' => ?_, hlastWatch ▸ h.lastWatch.trans hnow, ?_, fun hrunning => ?_,
    fun b' hb' hsilent => ?_, fun _ hrestart => ?_, fun code hcode => ?_⟩
  · obtain ⟨b, hb, rfl | rfl⟩ := hloops b' hb'
    · exact h.lastBeat _ hb
    · rfl
  · rw [hwatchAt, hlastWatch]
    exact h.watchAt
  · rw [hwatchAt]
    obtain ⟨-, hstep⟩ := step_cases hstep
    cases e with
    | pass d =>
      subst hstep
      exact hwatching hrunning
    | lambda alive =>
      subst hstep
      exact h.inTime hrunning
    | stop =>
      subst hstep
      cases hrunning
    | dispatch e =>
      obtain ⟨l, -, rfl⟩ := hstep
      exact h.inTime hrunning
    | pull i e =>
      obtain ⟨l, l', -, -, rfl⟩ := hstep
      exact h.inTime hrunning
    | watch => exact absurd rfl he
  · rw [hreported]
    rw [hlastWatch] at hsilent
    obtain ⟨b, hb, rfl | rfl⟩ := hloops b' hb'
    · exact h.named _ hb hsilent
    · -- a loop that has just beaten was not silent at the last tick
      have := h.lastWatch
      rw [secs] at hsilent
      omega
  · obtain ⟨hexit, -⟩ := step_cases hstep
    rw [hreported, h.exit hexit hrestart]
  · rw [hexit] at hcode
    cases hcode

theorem Watched.start (policy : OnStall) (late now : ℕ) (lambdaAlive : Bool)
    (accounts : List Pull.Account) : Watched policy late (start now lambdaAlive accounts) := by
  have hbeat : ∀ b ∈ (Heartbeats.start now lambdaAlive accounts).loops,
      b.2 = now ∧ b.1.lastBeat = now / 10 ^ 9 := by
    intro b hb
    rcases List.mem_cons.1 hb with rfl | hb
    · exact ⟨rfl, rfl⟩
    · obtain ⟨l, hl, rfl⟩ := List.mem_map.1 hb
      obtain ⟨a, -, rfl⟩ := List.mem_map.1 hl
      exact ⟨rfl, rfl⟩
  refine ⟨fun b hb => ?_, le_rfl, Nat.le_add_right _ _, fun _ => Nat.le_add_right _ _,
    fun b hb hsilent => ?_, fun _ _ => rfl, fun code hcode => by cases hcode⟩
  · rw [(hbeat b hb).1]
    exact (hbeat b hb).2
  · rw [(hbeat b hb).1, secs] at hsilent
    change now + _ ≤ now at hsilent
    omega

/-- In every run whose watchdog is at most `late` behind its interval, and while the gateway runs: a
loop that has not beaten for its bound, a second, and a turn of the watchdog more is among the
reported ones, or the watchdog has ended the process with its code; where it may do so it has. -/
theorem wedged_reported (policy : OnStall) (late now : ℕ) (lambdaAlive : Bool)
    (accounts : List Pull.Account) {es : List Event} {s : State}
    (hwatching : Runs.Along (step policy) (Watching late) (start now lambdaAlive accounts) es)
    (hr : Runs.run (step policy) (start now lambdaAlive accounts) es = some s)
    (hrunning : s.running = true) {b : LoopHeartbeat × ℕ} (hb : b ∈ s.loops)
    (hsilent : b.2 + secs (b.1.maxSilenceSecs + 1) + stallWatchInterval + late ≤ s.now) :
    s.exit = some 75 ∨ s.exit = none ∧ policy = .notifyOnly ∧ b.1.name ∈ s.reported := by
  have h : Watched policy late s := Runs.run_invariant
    (fun s e t hs hwatching hstep => hs.step hwatching hstep)
    (.start policy late now lambdaAlive accounts) hwatching hr
  cases hexit : s.exit with
  | some code => exact .inl (congrArg some (h.code code hexit))
  | none =>
    have hname : b.1.name ∈ s.reported := by
      apply h.named b hb
      have := h.inTime hrunning
      have := h.watchAt
      omega
    refine .inr ⟨rfl, ?_, hname⟩
    cases hpolicy : policy with
    | notifyOnly => rfl
    | notifyAndRestart =>
      rw [h.exit hexit hpolicy] at hname
      cases hname

/-- A fetch that does not return; the watchdog comes a quarter of an hour late, and once more. -/
theorem wedged_reported_fetch :
    ∃ s, Runs.run (step .notifyOnly) (start 0 true [⟨ascii "pop3", false, secs 600⟩])
        [.pass (secs 1000), .watch, .pass (secs 931)] = some s ∧
      (s.exit = some 75 ∨ s.exit = none ∧ OnStall.notifyOnly = .notifyOnly ∧
        ascii "pop3" ∈ s.reported) := by
  have hsome : (Runs.run (step .notifyOnly) (start 0 true [⟨ascii "pop3", false, secs 600⟩])
      [.pass (secs 1000), .watch, .pass (secs 931)]).isSome := by decide +kernel
  refine ⟨_, (Option.some_get hsome).symm, ?_⟩
  exact wedged_reported .notifyOnly (secs 1000) 0 true [⟨ascii "pop3", false, secs 600⟩]
    (by decide +kernel) (Option.some_get hsome).symm (by decide +kernel +revert)
    (b := (⟨ascii "pop3", 900, 0⟩, 0)) (by decide +kernel +revert) (by decide +kernel +revert)

end Antie.Heartbeats
