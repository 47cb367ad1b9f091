import AxiomCarriers.Antie.Heartbeats

/-!
# Waiting is not stalling

A loop that waits on purpose is not stalled: while every step takes a bounded time and the server of
an IDLE session sends few lines between two quiet slices, nothing is ever reported, however long the
backoff is (`waiting_never_stalled`).

The bound on the lines is needed, since a line of an IDLE session does not beat: while the next line
always comes before the slice ends the heartbeat stays what it was, and the account is stalled once
its bound has gone by (`chatter_stalls`).
-/

namespace Antie.Heartbeats

open Bytes Watchdog

/-! ## Beats in time -/

/-- How long the waits take that have no end of their own. -/
structure Limits where
  /-- A fetch, a message of a pull loop, and the opening and the closing of a session. -/
  busy : ℕ
  /-- A look into the inbox, and a round of the dispatch loop. -/
  round : ℕ
  /-- The rest of a line. -/
  line : ℕ
  /-- By how much a timer is late. -/
  late : ℕ

/-- What a line of a session can take that the loop did not leave on. -/
def Limits.slice (L : Limits) : ℕ := beatSlice + L.late + L.line

/-- A heartbeat is what was last beaten, and not older than `silence`. -/
structure Fresh (silence now : ℕ) (hb : LoopHeartbeat) (beatAt : ℕ) : Prop where
  lastBeat : hb.lastBeat = beatAt / 10 ^ 9
  silent : now ≤ beatAt + silence

theorem Fresh.age {silence now beatAt : ℕ} {hb : LoopHeartbeat}
    (h : Fresh silence now hb beatAt) (hsilence : silence ≤ secs hb.maxSilenceSecs) :
    (hb.snapshot now).ageSecs ≤ hb.maxSilenceSecs := by
  have hsilent := h.silent
  rw [secs] at hsilence
  rw [LoopHeartbeat.snapshot, h.lastBeat]
  dsimp only
  omega

/-- It is not later than due, where anything is. -/
def InTime (now : ℕ) : Option ℕ → Prop
  | none => True
  | some due => now ≤ due

instance (now : ℕ) : (due : Option ℕ) → Decidable (InTime now due)
  | none => inferInstanceAs (Decidable True)
  | some due => inferInstanceAs (Decidable (now ≤ due))

namespace Dispatch

/-- When the wait is over at the latest. -/
def Loop.due (L : Limits) (l : Loop) : Option ℕ :=
  match l.phase with
  | .checking _ | .round _ _ => some (l.since + L.round)
  | .awaiting wake => some (wake + L.late)
  | .stopped => none

/-- The wait has not taken longer than it can. -/
def Loop.Prompt (L : Limits) (now : ℕ) (l : Loop) : Prop := InTime now (l.due L)

instance (L : Limits) (now : ℕ) (l : Loop) : Decidable (l.Prompt L now) :=
  inferInstanceAs (Decidable (InTime _ _))

/-- How long before the wait the loop has beaten; it ends only when the gateway stops. -/
def Loop.Beaten (L : Limits) (running : Bool) (l : Loop) : Prop :=
  match l.phase with
  | .checking true => l.since ≤ l.beatAt + (dispatchPause + L.late)
  | .checking false => l.since ≤ l.beatAt + (dispatchPause + L.late + L.round)
  | .round _ _ => l.since = l.beatAt
  | .awaiting wake => l.since = l.beatAt ∧ wake = l.since + dispatchPause
  | .stopped => running = false

/-- What the loop keeps while every step takes its time at most. -/
structure Loop.Alive (L : Limits) (running : Bool) (now : ℕ) (l : Loop) : Prop where
  bound : l.hb.maxSilenceSecs = dispatchMaxSilenceSecs
  lastBeat : l.hb.lastBeat = l.beatAt / 10 ^ 9
  beatAt : l.beatAt ≤ now
  since : l.since ≤ now
  beaten : l.Beaten L running
  prompt : l.Prompt L now

variable {L : Limits} {running : Bool} {now : ℕ} {l : Loop}

theorem Loop.Alive.top (h : l.Alive L running now) : (l.top running now).Alive L running now := by
  cases running with
  | true =>
    exact ⟨h.bound, rfl, le_rfl, le_rfl, ⟨rfl, rfl⟩,
      (Nat.le_add_right now dispatchPause).trans (Nat.le_add_right _ _)⟩
  | false => exact ⟨h.bound, h.lastBeat, h.beatAt, le_rfl, rfl, trivial⟩

/-- A pass goes on with a beat, or with what is left of the time of a turn. -/
theorem Loop.Alive.next (h : l.Alive L running now) (again : Bool) (left : ℕ)
    (hagain : again → now ≤ l.beatAt + (dispatchPause + L.late + L.round)) :
    (l.next running now again left).Alive L running now := by
  cases left with
  | succ left => exact ⟨h.bound, rfl, le_rfl, le_rfl, rfl, Nat.le_add_right _ _⟩
  | zero =>
    cases again with
    | true => exact ⟨h.bound, h.lastBeat, h.beatAt, le_rfl, hagain rfl, Nat.le_add_right _ _⟩
    | false => exact h.top

theorem Loop.Alive.step (h : l.Alive L running now) {e : Event} {l' : Loop} (hopen : e ≠ .closed)
    (hstep : l.step running now e = some l') : l'.Alive L running now := by
  obtain ⟨-, -, hbeat, hsince, hbeaten, hprompt⟩ := id h
  cases hphase : l.phase <;> cases e <;> simp only [Loop.step, hphase, reduceCtorEq] at hstep <;>
    simp only [Loop.Beaten, Loop.Prompt, Loop.due, hphase, InTime] at hbeaten hprompt
  case checking.checked again found =>
    obtain rfl := Option.some.inj hstep
    refine h.next again _ fun hagain => ?_
    subst hagain
    simp only at hbeaten
    omega
  case round.handled again left =>
    obtain rfl := Option.some.inj hstep
    exact h.next again left fun _ => by omega
  case awaiting.notified wake =>
    obtain rfl := Option.some.inj hstep
    refine ⟨h.bound, h.lastBeat, hbeat, le_rfl, ?_, Nat.le_add_right _ _⟩
    change now ≤ l.beatAt + _
    omega
  case awaiting.timeout wake =>
    split at hstep
    case isTrue hwake =>
      obtain rfl := Option.some.inj hstep
      refine ⟨h.bound, h.lastBeat, hbeat, le_rfl, ?_, Nat.le_add_right _ _⟩
      change now ≤ l.beatAt + _
      omega
    case isFalse => cases hstep
  case awaiting.closed wake => exact absurd rfl hopen

/-- Time passes up to where the wait is still in time. -/
theorem Loop.Alive.pass (h : l.Alive L running now) {d : ℕ} (hprompt : l.Prompt L (now + d)) :
    l.Alive L running (now + d) :=
  ⟨h.bound, h.lastBeat, h.beatAt.trans (Nat.le_add_right now d),
    h.since.trans (Nat.le_add_right now d), h.beaten, hprompt⟩

/-- A gateway that stops asks less of the loop. -/
theorem Loop.Alive.stop (h : l.Alive L running now) : l.Alive L false now := by
  refine ⟨h.bound, h.lastBeat, h.beatAt, h.since, ?_, h.prompt⟩
  have hbeaten := h.beaten
  cases hphase : l.phase with
  | checking again => cases again <;> simpa only [Loop.Beaten, hphase] using hbeaten
  | round again left | awaiting wake => simpa only [Loop.Beaten, hphase] using hbeaten
  | stopped => simp only [Loop.Beaten, hphase]

theorem Loop.Alive.start (L : Limits) (running : Bool) (now : ℕ) :
    (Loop.start now).Alive L running now :=
  ⟨rfl, rfl, le_rfl, le_rfl, Nat.le_add_right _ _, Nat.le_add_right _ _⟩

theorem Loop.Alive.fresh (h : l.Alive L true now) :
    Fresh (dispatchPause + L.late + 2 * L.round) now l.hb l.beatAt := by
  obtain ⟨-, hlast, -, -, hbeaten, hprompt⟩ := h
  refine ⟨hlast, ?_⟩
  cases hl : l.phase with
  | checking again =>
    cases again <;> simp only [Loop.Beaten, Loop.Prompt, Loop.due, hl, InTime] at hbeaten hprompt <;>
      omega
  | round again left | awaiting wake =>
    simp only [Loop.Beaten, Loop.Prompt, Loop.due, hl, InTime] at hbeaten hprompt
    omega
  | stopped => simp [Loop.Beaten, hl] at hbeaten

end Dispatch

namespace Pull

/-- When the wait is over at the latest. -/
def Loop.due (L : Limits) (l : Loop) : Option ℕ :=
  match l.phase with
  | .fetch | .message _ | .opening | .leaving _ => some (l.since + L.busy)
  -- the deadline may have passed when a slice begins
  | .idling _ wake | .sleeping _ wake => some (max l.since wake + L.late)
  | .reading _ => some (l.since + L.line)
  | .stopped => none

/-- The wait has not taken longer than it can. -/
def Loop.Prompt (L : Limits) (now : ℕ) (l : Loop) : Prop := InTime now (l.due L)

instance (L : Limits) (now : ℕ) (l : Loop) : Decidable (l.Prompt L now) :=
  inferInstanceAs (Decidable (InTime _ _))

/-- How long before the wait the loop has beaten, with at most `n` lines since then. -/
def Loop.Beaten (L : Limits) (n : ℕ) (running : Bool) (l : Loop) : Prop :=
  match l.phase with
  | .fetch | .message _ | .opening => l.since = l.beatAt
  | .idling _ wake => l.since ≤ l.beatAt + (L.busy + l.noise * L.slice) ∧ wake ≤ l.since + beatSlice
  | .reading _ => l.since ≤ l.beatAt + (L.busy + l.noise * L.slice) + (beatSlice + L.late)
  | .leaving _ => l.since ≤ l.beatAt + (L.busy + (n + 1) * L.slice)
  | .sleeping _ wake => l.since = l.beatAt ∧ wake ≤ l.since + beatSlice
  | .stopped => running = false

/-- What the loop keeps while every step takes its time at most and the lines are few. -/
structure Loop.Alive (L : Limits) (n : ℕ) (running : Bool) (now : ℕ) (l : Loop) : Prop where
  bound : l.hb.maxSilenceSecs = pullMaxSilenceSecs
  lastBeat : l.hb.lastBeat = l.beatAt / 10 ^ 9
  beatAt : l.beatAt ≤ now
  since : l.since ≤ now
  noise : l.noise ≤ n
  beaten : l.Beaten L n running
  prompt : l.Prompt L now

variable {L : Limits} {n now : ℕ} {running : Bool} {l : Loop}

/-- What does not depend on the wait: enough to go on with a beat. -/
structure Loop.Steady (n now : ℕ) (l : Loop) : Prop where
  bound : l.hb.maxSilenceSecs = pullMaxSilenceSecs
  lastBeat : l.hb.lastBeat = l.beatAt / 10 ^ 9
  beatAt : l.beatAt ≤ now
  noise : l.noise ≤ n

theorem Loop.Alive.steady (h : l.Alive L n running now) : l.Steady n now :=
  ⟨h.bound, h.lastBeat, h.beatAt, h.noise⟩

theorem Loop.Steady.top (h : l.Steady n now) (running : Bool) :
    (l.top running now).Alive L n running now := by
  cases running with
  | true => exact ⟨h.bound, rfl, le_rfl, le_rfl, Nat.zero_le n, rfl, Nat.le_add_right _ _⟩
  | false => exact ⟨h.bound, h.lastBeat, h.beatAt, le_rfl, h.noise, rfl, trivial⟩

theorem Loop.Steady.beat (h : l.Steady n now) : (l.beat now).Steady n now :=
  ⟨h.bound, rfl, le_rfl, Nat.zero_le n⟩

/-- A sleep is cut into slices, and each of them begins with a beat. -/
theorem Loop.Steady.sleepBeating (h : l.Steady n now) (running : Bool) (finish : ℕ) :
    (l.sleepBeating running now finish).Alive L n running now := by
  rw [Loop.sleepBeating]
  split_ifs with hfinish
  · exact h.beat.top running
  · refine ⟨h.bound, rfl, le_rfl, le_rfl, Nat.zero_le n, ⟨rfl, ?_⟩, ?_⟩
    · exact Nat.add_le_add_left (min_le_right _ _) now
    · exact (le_max_left now _).trans (Nat.le_add_right _ _)

theorem Loop.Steady.delivered (h : l.Steady n now) (running reached : Bool) :
    (l.delivered running now reached).Alive L n running now := by
  rw [Loop.delivered]
  split_ifs with hidle
  · exact ⟨h.bound, rfl, le_rfl, le_rfl, Nat.zero_le n, rfl, Nat.le_add_right _ _⟩
  · apply Loop.Steady.sleepBeating
    exact ⟨h.bound, h.lastBeat, h.beatAt, h.noise⟩

theorem Loop.Steady.next (h : l.Steady n now) (running : Bool) (left : ℕ) :
    (l.next running now left).Alive L n running now := by
  cases left with
  | zero => exact h.delivered running true
  | succ left => exact ⟨h.bound, rfl, le_rfl, le_rfl, Nat.zero_le n, rfl, Nat.le_add_right _ _⟩

theorem Loop.Steady.idleFailed (h : l.Steady n now) (running : Bool) :
    (l.idleFailed running now).Alive L n running now := by
  apply Loop.Steady.sleepBeating
  exact ⟨h.bound, h.lastBeat, h.beatAt, h.noise⟩

/-- A slice begins where the time before it is accounted for. -/
theorem Loop.Steady.slice (h : l.Steady n now) (deadline : ℕ)
    (hbeaten : now ≤ l.beatAt + (L.busy + l.noise * L.slice)) :
    (l.slice now deadline).Alive L n running now :=
  ⟨h.bound, h.lastBeat, h.beatAt, le_rfl, h.noise, ⟨hbeaten, min_le_right _ _⟩,
    (le_max_left now _).trans (Nat.le_add_right _ _)⟩

/-- A line that the session does not leave on takes a slice more. -/
theorem Loop.Steady.chatter (h : l.Steady n now) (deadline : ℕ) (hnoise : l.noise < n)
    (hbeaten : now ≤ l.beatAt + (L.busy + (l.noise + 1) * L.slice)) :
    { l.slice now deadline with noise := l.noise + 1 }.Alive L n running now :=
  ⟨h.bound, h.lastBeat, h.beatAt, le_rfl, hnoise, ⟨hbeaten, min_le_right _ _⟩,
    (le_max_left now _).trans (Nat.le_add_right _ _)⟩

theorem Loop.Steady.leaving (h : l.Steady n now) (done : Bool)
    (hbeaten : now ≤ l.beatAt + (L.busy + (n + 1) * L.slice)) :
    (l.enter now (.leaving done)).Alive L n running now :=
  ⟨h.bound, h.lastBeat, h.beatAt, le_rfl, h.noise, hbeaten, Nat.le_add_right _ _⟩

/-- Where an idle wait, or the reading of a line, is at its end. -/
theorem Loop.Alive.line (h : l.Alive L n running now)
    (hphase : (∃ deadline wake, l.phase = .idling deadline wake) ∨
      ∃ deadline, l.phase = .reading deadline) :
    now ≤ l.beatAt + (L.busy + (l.noise + 1) * L.slice) ∧
      now ≤ l.beatAt + (L.busy + (n + 1) * L.slice) := by
  obtain ⟨-, -, -, -, hnoise, hbeaten, hprompt⟩ := h
  have hle : (l.noise + 1) * L.slice ≤ (n + 1) * L.slice :=
    Nat.mul_le_mul_right _ (Nat.add_le_add_right hnoise 1)
  have hslice : L.slice = beatSlice + L.late + L.line := rfl
  have hmul : (l.noise + 1) * L.slice = l.noise * L.slice + L.slice := Nat.succ_mul _ _
  suffices hline : now ≤ l.beatAt + (L.busy + (l.noise + 1) * L.slice) from ⟨hline, by omega⟩
  rw [hmul]
  rcases hphase with ⟨deadline, wake, hphase⟩ | ⟨deadline, hphase⟩ <;>
    simp only [Loop.Beaten, Loop.Prompt, Loop.due, hphase, InTime] at hbeaten hprompt <;> omega

theorem Loop.Alive.step (h : l.Alive L n running now) {e : Event} {l' : Loop}
    (hcalm : e = .line .other → l.noise < n) (hstep : l.step running now e = some l') :
    l'.Alive L n running now := by
  have hs : l.Steady n now := h.steady
  have hbeaten := h.beaten
  have hprompt := h.prompt
  cases hphase : l.phase <;> cases e <;> simp only [Loop.step, hphase, reduceCtorEq] at hstep <;>
    simp only [Loop.Beaten, Loop.Prompt, Loop.due, hphase, InTime] at hbeaten hprompt
  case fetch.fetched found =>
    obtain rfl := Option.some.inj hstep
    cases found with
    | none => exact hs.delivered running false
    | some found => exact hs.next running found
  case message.handled left =>
    obtain rfl := Option.some.inj hstep
    exact hs.next running left
  case opening.opened outcome =>
    obtain rfl := Option.some.inj hstep
    cases outcome with
    | idling => exact hs.slice (now + recycle) (by omega)
    | mail => exact hs.leaving false (by omega)
    | notSupported =>
      apply Loop.Steady.top
      exact ⟨hs.bound, hs.lastBeat, hs.beatAt, hs.noise⟩
    | failed => exact hs.idleFailed running
  case idling.data deadline wake =>
    obtain rfl := Option.some.inj hstep
    refine ⟨hs.bound, hs.lastBeat, hs.beatAt, le_rfl, hs.noise, ?_, Nat.le_add_right _ _⟩
    change now ≤ l.beatAt + (L.busy + l.noise * L.slice) + (beatSlice + L.late)
    omega
  case idling.dropped deadline wake =>
    obtain rfl := Option.some.inj hstep
    exact hs.idleFailed running
  case idling.quiet deadline wake =>
    split at hstep
    case isFalse => cases hstep
    case isTrue hwake =>
      split at hstep <;> obtain rfl := Option.some.inj hstep
      case isTrue => exact hs.leaving true (h.line (.inl ⟨deadline, wake, hphase⟩)).2
      case isFalse => exact hs.beat.slice deadline (Nat.le_add_right _ _)
  case reading.line deadline line =>
    have hline := h.line (.inr ⟨deadline, hphase⟩)
    obtain rfl := Option.some.inj hstep
    cases line with
    | mail => exact hs.leaving true hline.2
    | other => exact hs.chatter deadline (hcalm rfl) hline.1
    | failed => exact hs.idleFailed running
  case leaving.left done ok =>
    split at hstep
    case isTrue =>
      obtain rfl := Option.some.inj hstep
      apply Loop.Steady.top
      exact ⟨hs.bound, hs.lastBeat, hs.beatAt, hs.noise⟩
    case isFalse =>
      split at hstep
      case isTrue =>
        obtain rfl := Option.some.inj hstep
        exact hs.idleFailed running
      case isFalse => cases hstep
  case sleeping.wake finish wake =>
    split at hstep
    case isTrue =>
      obtain rfl := Option.some.inj hstep
      exact hs.sleepBeating running finish
    case isFalse => cases hstep

theorem Loop.Alive.fresh (h : l.Alive L n true now) :
    Fresh (2 * L.busy + (n + 1) * L.slice) now l.hb l.beatAt := by
  refine ⟨h.lastBeat, ?_⟩
  have hline := h.line
  obtain ⟨-, -, -, -, -, hbeaten, hprompt⟩ := h
  have hslice : beatSlice + L.late ≤ (n + 1) * L.slice :=
    (Nat.le_add_right _ L.line).trans (Nat.le_mul_of_pos_left L.slice n.succ_pos)
  cases hl : l.phase with
  | idling deadline wake =>
    have := (hline (.inl ⟨deadline, wake, hl⟩)).2
    omega
  | reading deadline =>
    have := (hline (.inr ⟨deadline, hl⟩)).2
    omega
  | fetch | message left | opening | leaving done | sleeping finish wake =>
    simp only [Loop.Beaten, Loop.Prompt, Loop.due, hl, InTime] at hbeaten hprompt
    omega
  | stopped => simp [Loop.Beaten, hl] at hbeaten

theorem Loop.Alive.pass (h : l.Alive L n running now) {d : ℕ} (hprompt : l.Prompt L (now + d)) :
    l.Alive L n running (now + d) :=
  ⟨h.bound, h.lastBeat, h.beatAt.trans (Nat.le_add_right now d),
    h.since.trans (Nat.le_add_right now d), h.noise, h.beaten, hprompt⟩

/-- A gateway that stops asks less of the loop. -/
theorem Loop.Alive.stop (h : l.Alive L n running now) : l.Alive L n false now := by
  refine ⟨h.bound, h.lastBeat, h.beatAt, h.since, h.noise, ?_, h.prompt⟩
  have hbeaten := h.beaten
  cases hphase : l.phase <;> simp only [Loop.Beaten, hphase] at hbeaten ⊢ <;> exact hbeaten

theorem Loop.Alive.start (L : Limits) (n : ℕ) (running : Bool) (now : ℕ) (a : Account) :
    (Loop.start now a).Alive L n running now :=
  ⟨rfl, rfl, le_rfl, le_rfl, Nat.zero_le n, rfl, Nat.le_add_right _ _⟩

end Pull

/-! ## The gateway -/

variable {policy : OnStall} {s t : State} {e : Event}

/-- Every wait takes its time at most, the watcher of the inbox lives, and an IDLE session gets at
most `n` lines between two beats that it does not leave on. -/
def Timely (L : Limits) (n : ℕ) (s : State) : Event → Prop
  | .pass d => s.dispatch.Prompt L (s.now + d) ∧ ∀ l ∈ s.pulls, l.Prompt L (s.now + d)
  | .dispatch e => e ≠ .closed
  | .pull i e => ∀ l ∈ s.pulls[i]?, e = .line .other → l.noise < n
  | .lambda _ | .stop | .watch => True

instance (L : Limits) (n : ℕ) (s : State) : (e : Event) → Decidable (Timely L n s e)
  | .pass d => inferInstanceAs (Decidable
      (s.dispatch.Prompt L (s.now + d) ∧ ∀ l ∈ s.pulls, l.Prompt L (s.now + d)))
  | .dispatch e => inferInstanceAs (Decidable (e ≠ .closed))
  | .pull i e => inferInstanceAs (Decidable (∀ l ∈ s.pulls[i]?, e = .line .other → l.noise < n))
  | .lambda _ | .stop | .watch => inferInstanceAs (Decidable True)

/-- Every loop is in time, and none has been reported. -/
structure Alive (L : Limits) (n : ℕ) (s : State) : Prop where
  dispatch : s.dispatch.Alive L s.running s.now
  pulls : ∀ l ∈ s.pulls, l.Alive L n s.running s.now
  reported : s.reported = []
  exit : s.exit = none

variable {L : Limits} {n : ℕ}

theorem Alive.not_stalled (h : Alive L n s) (hrunning : s.running = true)
    (hpull : 2 * L.busy + (n + 1) * L.slice ≤ secs pullMaxSilenceSecs)
    (hdispatch : dispatchPause + L.late + 2 * L.round ≤ secs dispatchMaxSilenceSecs)
    (name : Bytes) : ¬ Stalled s.tick name := by
  rw [stalled_iff]
  rintro ⟨hb, hmem, -, hage⟩
  apply absurd hage
  rw [not_lt]
  rcases List.mem_cons.1 hmem with rfl | hmem
  · have hfresh := (hrunning ▸ h.dispatch).fresh
    apply hfresh.age
    rwa [h.dispatch.bound]
  · obtain ⟨l, hl, rfl⟩ := List.mem_map.1 hmem
    have hfresh := (hrunning ▸ h.pulls l hl).fresh
    apply hfresh.age
    rwa [(h.pulls l hl).bound]

/-- A watchdog that finds no loop stalled reports nothing. -/
theorem watch_silent (policy : OnStall) (hs : ∀ name, ¬ Stalled s.tick name) :
    (Watchdog.tick policy s.reported s.tick).reported = [] ∧
      (Watchdog.tick policy s.reported s.tick).exit = none := by
  obtain ⟨kept, fresh, htick, -, -, hkept, hfresh⟩ := tick_eq policy s.reported s.tick
  obtain rfl := List.eq_nil_iff_forall_not_mem.2 fun name hname => hs name ((hkept name).1 hname).2
  obtain rfl := List.eq_nil_iff_forall_not_mem.2 fun name hname => hs name ((hfresh name).1 hname).1
  rw [htick]
  exact ⟨rfl, rfl⟩

theorem Alive.step (h : Alive L n s)
    (hpull : 2 * L.busy + (n + 1) * L.slice ≤ secs pullMaxSilenceSecs)
    (hdispatch : dispatchPause + L.late + 2 * L.round ≤ secs dispatchMaxSilenceSecs)
    (htimely : Timely L n s e) (hstep : step policy s e = some t) : Alive L n t := by
  obtain ⟨hexit, hstep⟩ := step_cases hstep
  cases e with
  | pass d =>
    subst hstep
    exact ⟨h.dispatch.pass htimely.1, fun l hl => (h.pulls l hl).pass (htimely.2 l hl), h.reported,
      hexit⟩
  | dispatch e =>
    obtain ⟨l, hl, rfl⟩ := hstep
    exact ⟨h.dispatch.step htimely hl, h.pulls, h.reported, hexit⟩
  | pull i e =>
    obtain ⟨l, l', hl, hl', rfl⟩ := hstep
    refine ⟨h.dispatch, fun l'' hmem => ?_, h.reported, hexit⟩
    rcases List.mem_or_eq_of_mem_set hmem with hmem | rfl
    · exact h.pulls l'' hmem
    · exact (h.pulls l (List.mem_of_getElem? hl)).step (htimely l hl) hl'
  | lambda alive =>
    subst hstep
    exact ⟨h.dispatch, h.pulls, h.reported, hexit⟩
  | stop =>
    subst hstep
    exact ⟨h.dispatch.stop, fun l hl => (h.pulls l hl).stop, h.reported, hexit⟩
  | watch =>
    obtain ⟨hrunning, -, rfl⟩ := hstep
    obtain ⟨hreported, hexit⟩ := watch_silent policy (h.not_stalled hrunning hpull hdispatch)
    exact ⟨h.dispatch, h.pulls, hreported, hexit⟩

theorem Alive.start (L : Limits) (n now : ℕ) (lambdaAlive : Bool) (accounts : List Pull.Account) :
    Alive L n (start now lambdaAlive accounts) := by
  refine ⟨.start L true now, fun l hl => ?_, rfl, rfl⟩
  obtain ⟨a, -, rfl⟩ := List.mem_map.1 hl
  exact .start L n true now a

/-- While every wait takes its time at most, and an IDLE session gets at most `n` lines between two
beats, no loop is ever reported, the process goes on, and `/health` is as good as Lambda is: however
the loops interleave, and however long the backoff of an account has become. -/
theorem waiting_never_stalled (policy : OnStall) (L : Limits) (n now : ℕ) (lambdaAlive : Bool)
    (accounts : List Pull.Account) {es : List Event} {s : State}
    (hpull : 2 * L.busy + (n + 1) * L.slice ≤ secs pullMaxSilenceSecs)
    (hdispatch : dispatchPause + L.late + 2 * L.round ≤ secs dispatchMaxSilenceSecs)
    (htimely : Runs.Along (step policy) (Timely L n) (start now lambdaAlive accounts) es)
    (hr : Runs.run (step policy) (start now lambdaAlive accounts) es = some s) :
    s.reported = [] ∧ s.exit = none ∧ (s.running = true →
      healthVerdict s.tick.lambdaAlive s.tick.beats =
        ⟨s.lambdaAlive, s.lambdaAlive, [], (s.tick.beats.map (·.ageSecs)).foldr max 0⟩) := by
  have h : Alive L n s := Runs.run_invariant
    (fun s e t hs htimely hstep => hs.step hpull hdispatch htimely hstep)
    (.start L n now lambdaAlive accounts) htimely hr
  refine ⟨h.reported, h.exit, fun hrunning => ?_⟩
  have hstalled : (healthVerdict s.tick.lambdaAlive s.tick.beats).stalled = [] := by
    rw [← List.map_eq_nil_iff (f := nameOf)]
    refine List.eq_nil_iff_forall_not_mem.2 fun name hname => ?_
    exact h.not_stalled hrunning hpull hdispatch name ((mem_nowStalled _ name).1 hname)
  rw [healthVerdict] at hstalled ⊢
  dsimp only at hstalled
  rw [hstalled]
  simp [State.tick]

/-- Twenty minutes of backoff, slept in slices, beside a round of two minutes. -/
theorem waiting_never_stalled_backoff :
    ∃ s, Runs.run (step .notifyAndRestart) (start 0 true [⟨ascii "pop3", false, secs 600⟩])
        [.dispatch (.checked (some 1)), .pull 0 (.fetched none), .watch, .pass (secs 60),
          .pull 0 .wake, .pass (secs 60), .dispatch .handled, .pull 0 .wake, .watch] = some s ∧
      s.reported = [] ∧ s.exit = none ∧ s.now = secs 120 := by
  have hsome : (Runs.run (step .notifyAndRestart)
      (start 0 true [⟨ascii "pop3", false, secs 600⟩])
      [.dispatch (.checked (some 1)), .pull 0 (.fetched none), .watch, .pass (secs 60),
        .pull 0 .wake, .pass (secs 60), .dispatch .handled, .pull 0 .wake, .watch]).isSome := by
    decide +kernel
  obtain ⟨hreported, hexit, -⟩ := waiting_never_stalled .notifyAndRestart
    ⟨secs 300, secs 200, secs 1, secs 1⟩ 1 0 true [⟨ascii "pop3", false, secs 600⟩] (by decide)
    (by decide) (by decide +kernel) (Option.some_get hsome).symm
  exact ⟨_, (Option.some_get hsome).symm, hreported, hexit, by decide +kernel +revert⟩

/-! ## Chatter -/

/-- An IDLE session that the next line comes to before its slice ends. -/
def Pull.Phase.Chatting (now : ℕ) : Pull.Phase → Prop
  | .idling deadline wake => now < wake ∧ wake ≤ deadline
  | .reading deadline => now < deadline
  | _ => False

instance (now : ℕ) : (phase : Pull.Phase) → Decidable (phase.Chatting now)
  | .idling deadline wake => inferInstanceAs (Decidable (now < wake ∧ wake ≤ deadline))
  | .reading deadline => inferInstanceAs (Decidable (now < deadline))
  | .fetch | .message _ | .opening | .leaving _ | .sleeping _ _ | .stopped =>
    inferInstanceAs (Decidable False)

/-- The account's session gets whole lines, none of them of mail, and each in time. -/
def Chatty (i : ℕ) (s : State) : Event → Prop
  | .pass d => ∀ l ∈ s.pulls[i]?, l.phase.Chatting (s.now + d)
  | .pull j e => j = i → e ≠ .dropped ∧ e ≠ .line .mail ∧ e ≠ .line .failed
  | .dispatch _ | .lambda _ | .stop | .watch => True

instance (i : ℕ) (s : State) : (e : Event) → Decidable (Chatty i s e)
  | .pass d => inferInstanceAs (Decidable (∀ l ∈ s.pulls[i]?, l.phase.Chatting (s.now + d)))
  | .pull j e => inferInstanceAs (Decidable
      (j = i → e ≠ .dropped ∧ e ≠ .line .mail ∧ e ≠ .line .failed))
  | .dispatch _ | .lambda _ | .stop | .watch => inferInstanceAs (Decidable True)

/-- A line leaves the session where it is, with the heartbeat it had. -/
theorem Pull.Loop.chatting_step {running : Bool} {now : ℕ} {l l' : Pull.Loop} {e : Pull.Event}
    (h : l.phase.Chatting now) (he : e ≠ .dropped ∧ e ≠ .line .mail ∧ e ≠ .line .failed)
    (hstep : l.step running now e = some l') : l'.phase.Chatting now ∧ l'.hb = l.hb := by
  obtain ⟨hdropped, hmail, hfailed⟩ := he
  cases hphase : l.phase <;> cases e <;> simp only [Loop.step, hphase, reduceCtorEq] at hstep <;>
    simp only [Phase.Chatting, hphase] at h
  case idling.data deadline wake =>
    obtain rfl := Option.some.inj hstep
    exact ⟨h.1.trans_le h.2, rfl⟩
  case idling.dropped deadline wake => exact absurd rfl hdropped
  case idling.quiet deadline wake =>
    rw [if_neg (not_le.2 h.1)] at hstep
    cases hstep
  case reading.line deadline line =>
    obtain rfl := Option.some.inj hstep
    cases line with
    | mail => exact absurd rfl hmail
    | failed => exact absurd rfl hfailed
    | other =>
      refine ⟨⟨lt_min h ?_, min_le_left _ _⟩, rfl⟩
      exact Nat.lt_add_of_pos_right (by decide)

/-- However many lines an IDLE session gets that it does not leave on, none of them beats: while the
next one always comes before the slice ends the heartbeat stays what it was, and with its bound gone
by the account is stalled, for `/health` and for the watchdog. -/
theorem chatter_stalls (policy : OnStall) (i : ℕ) {s t : State} {es : List Event} {l : Pull.Loop}
    (hl : s.pulls[i]? = some l) (hchatting : l.phase.Chatting s.now)
    (hchatty : Runs.Along (step policy) (Chatty i) s es)
    (hr : Runs.run (step policy) s es = some t) :
    ∃ l', t.pulls[i]? = some l' ∧ l'.hb = l.hb ∧
      (l.hb.lastBeat + l.hb.maxSilenceSecs < t.now / 10 ^ 9 → Stalled t.tick l.hb.name) := by
  let I (s : State) : Prop := ∃ l', s.pulls[i]? = some l' ∧ l'.phase.Chatting s.now ∧ l'.hb = l.hb
  have hstep : ∀ s e t, I s → Chatty i s e → step policy s e = some t → I t := by
    rintro s e t ⟨l', hl', hchatting, hhb⟩ hchatty hstep
    obtain ⟨-, hstep⟩ := step_cases hstep
    cases e with
    | pass d =>
      subst hstep
      exact ⟨l', hl', hchatty l' hl', hhb⟩
    | lambda alive | stop =>
      subst hstep
      exact ⟨l', hl', hchatting, hhb⟩
    | dispatch e =>
      obtain ⟨dispatch, -, rfl⟩ := hstep
      exact ⟨l', hl', hchatting, hhb⟩
    | watch =>
      obtain ⟨-, -, rfl⟩ := hstep
      exact ⟨l', hl', hchatting, hhb⟩
    | pull j e =>
      obtain ⟨lj, lj', hlj, hstep, rfl⟩ := hstep
      by_cases hji : j = i
      · subst hji
        obtain rfl := Option.some.inj (hl'.symm.trans hlj)
        obtain ⟨hchatting, hkept⟩ := Pull.Loop.chatting_step hchatting (hchatty rfl) hstep
        have hj : j < s.pulls.length := (List.getElem?_eq_some_iff.1 hlj).1
        exact ⟨lj', List.getElem?_set_self hj, hchatting, hkept.trans hhb⟩
      · exact ⟨l', by rw [List.getElem?_set_ne hji]; exact hl', hchatting, hhb⟩
  obtain ⟨l', hl', -, hhb⟩ : I t :=
    Runs.run_invariant hstep ⟨l, hl, hchatting, rfl⟩ hchatty hr
  refine ⟨l', hl', hhb, fun hsilent => ?_⟩
  have hmem : l'.hb ∈ t.beats :=
    List.mem_cons_of_mem _ (List.mem_map_of_mem (List.mem_of_getElem? hl'))
  refine (stalled_iff t l.hb.name).2 ⟨l'.hb, hmem, hhb ▸ rfl, ?_⟩
  rw [hhb, LoopHeartbeat.snapshot]
  dsimp only
  omega

/-- A session that has been opened at once. -/
def idleState : State :=
  { start 0 true [] with pulls := [{ Pull.Loop.start 0 ⟨ascii "imap", true, secs 600⟩ with
      fetched := true, phase := .idling recycle (secs 60) }] }

/-- A line every fifty-seven seconds. -/
theorem chatter_stalls_quarter :
    ∃ t, Runs.run (step .notifyAndRestart) idleState ((List.replicate 16
        [Event.pass (secs 57), .pull 0 .data, .pull 0 (.line .other)]).flatten) = some t ∧
      Stalled t.tick (ascii "imap") := by
  have hsome : (Runs.run (step .notifyAndRestart) idleState ((List.replicate 16
      [Event.pass (secs 57), .pull 0 .data, .pull 0 (.line .other)]).flatten)).isSome := by
    decide +kernel
  obtain ⟨l, -, -, hstalled⟩ := chatter_stalls .notifyAndRestart 0
    (l := { Pull.Loop.start 0 ⟨ascii "imap", true, secs 600⟩ with
      fetched := true, phase := .idling recycle (secs 60) })
    rfl (by decide +kernel) (by decide +kernel) (Option.some_get hsome).symm
  refine ⟨_, (Option.some_get hsome).symm, hstalled ?_⟩
  clear hstalled
  decide +kernel +revert

end Antie.Heartbeats
