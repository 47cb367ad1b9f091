import AxiomCarriers.Antie.CarrierBackoff
import AxiomCarriers.Antie.Watchdog
import AxiomCarriers.Lib.Run

/-!
# The heartbeats of the long-running loops

The dispatch loop and every pull account beat a heartbeat as they go on, and the stall watchdog
judges the heartbeats every thirty seconds.  The loops are modelled wait by wait, on one clock of
nanoseconds: what a loop waits for, since when, and where in the source it beats.  `step_cases` says
once what a step can do.
-/

namespace Antie.Heartbeats

open Bytes Watchdog CarrierBackoff

def secs (n : ℕ) : ℕ := n * 10 ^ 9

/-- `DISPATCH_MAX_SILENCE_SECS`. -/
def dispatchMaxSilenceSecs : ℕ := 600

/-- `PULL_MAX_SILENCE_SECS`. -/
def pullMaxSilenceSecs : ℕ := 900

/-- `BEAT_SLICE`, and `IDLE_BEAT_SLICE`. -/
def beatSlice : ℕ := secs 60

/-- `STALL_WATCH_INTERVAL`. -/
def stallWatchInterval : ℕ := secs 30

/-- How long an IDLE session is held. -/
def recycle : ℕ := secs (25 * 60)

/-- How long the dispatch loop waits for a file to turn up. -/
def dispatchPause : ℕ := millis 500

structure LoopHeartbeat where
  name : Bytes
  maxSilenceSecs : ℕ
  /-- In whole seconds. -/
  lastBeat : ℕ
  deriving DecidableEq

def LoopHeartbeat.beat (hb : LoopHeartbeat) (now : ℕ) : LoopHeartbeat :=
  { hb with lastBeat := now / 10 ^ 9 }

/-- `register_heartbeat`. -/
def registerHeartbeat (name : Bytes) (maxSilenceSecs : ℕ) (now : ℕ) : LoopHeartbeat :=
  LoopHeartbeat.beat ⟨name, maxSilenceSecs, 0⟩ now

/-- An entry of `heartbeat_snapshot`. -/
def LoopHeartbeat.snapshot (now : ℕ) (hb : LoopHeartbeat) : HeartbeatSnapshot :=
  ⟨hb.name, now / 10 ^ 9 - hb.lastBeat, hb.maxSilenceSecs⟩

/-! ## The dispatch loop -/

namespace Dispatch

/-- What the dispatch loop waits for.  A turn of it goes over the inbox twice, and `again` says that
the second time is still to come. -/
inductive Phase
  | checking (again : Bool)
  | round (again : Bool) (left : ℕ)
  | awaiting (wake : ℕ)
  | stopped
  deriving DecidableEq

inductive Event
  /-- `check_new` has found so many messages, or failed. -/
  | checked (found : Option ℕ)
  /-- The message has been answered or refused. -/
  | handled
  /-- The watcher has announced a file. -/
  | notified
  | timeout
  /-- The channel of the watcher is closed. -/
  | closed
  deriving DecidableEq

/-- `since` and `beatAt` are ghosts: when the wait began, and the time of the last beat. -/
structure Loop where
  hb : LoopHeartbeat
  phase : Phase
  since : ℕ
  beatAt : ℕ
  deriving DecidableEq

def Loop.beat (l : Loop) (now : ℕ) : Loop := { l with hb := l.hb.beat now, beatAt := now }

/-- The loop waits for something new. -/
def Loop.enter (l : Loop) (now : ℕ) (phase : Phase) : Loop :=
  { l with phase, since := now }

/-- The loop is at its condition. -/
def Loop.top (running : Bool) (now : ℕ) (l : Loop) : Loop :=
  if running then (l.beat now).enter now (.awaiting (now + dispatchPause)) else l.enter now .stopped

/-- `process_carrier_messages` goes on to the next message, or returns. -/
def Loop.next (running : Bool) (now : ℕ) (again : Bool) (l : Loop) : ℕ → Loop
  | left + 1 => (l.beat now).enter now (.round again left)
  | 0 => if again then l.enter now (.checking false) else l.top running now

/-- `run_maildir_carrier`. -/
def Loop.step (running : Bool) (now : ℕ) (l : Loop) : Event → Option Loop
  | .checked found => match l.phase with
    | .checking again => some (l.next running now again (found.getD 0))
    | _ => none
  | .handled => match l.phase with
    | .round again left => some (l.next running now again left)
    | _ => none
  | .notified => match l.phase with
    | .awaiting _ => some (l.enter now (.checking true))
    | _ => none
  | .timeout => match l.phase with
    | .awaiting wake => if wake ≤ now then some (l.enter now (.checking true)) else none
    | _ => none
  | .closed => match l.phase with
    | .awaiting _ => some (l.enter now .stopped)
    | _ => none

/-- The loop begins with a pass over what is there. -/
def Loop.start (now : ℕ) : Loop :=
  ⟨registerHeartbeat (ascii "dispatch") dispatchMaxSilenceSecs now, .checking false, now, now⟩

end Dispatch

/-! ## The pull loops -/

namespace Pull

/-- What a pull loop waits for. -/
inductive Phase
  /-- `check_new`. -/
  | fetch
  /-- A message is stored and marked; so many are left behind it. -/
  | message (left : ℕ)
  /-- The session is opened, up to the IDLE command. -/
  | opening
  /-- The next byte of the session, or the end of the slice. -/
  | idling (deadline wake : ℕ)
  /-- The rest of a line. -/
  | reading (deadline : ℕ)
  /-- The session is closed; `done` where DONE has to be written first. -/
  | leaving (done : Bool)
  /-- `sleep_beating`. -/
  | sleeping (finish wake : ℕ)
  | stopped
  deriving DecidableEq

inductive Opened
  | idling
  | mail
  | notSupported
  | failed
  deriving DecidableEq

inductive Line
  | mail
  | other
  | failed
  deriving DecidableEq

inductive Event
  /-- `check_new` has returned so many messages, or failed. -/
  | fetched (found : Option ℕ)
  | handled
  | opened (outcome : Opened)
  /-- `fill_buf` has bytes. -/
  | data
  /-- `fill_buf` has failed, or the server has closed. -/
  | dropped
  | quiet
  | line (line : Line)
  | left (ok : Bool)
  | wake
  deriving DecidableEq

/-- `since`, `beatAt` and `noise` are ghosts: when the wait began, the time of the last beat, and
the lines since then that an IDLE session did not leave on. -/
structure Loop where
  hb : LoopHeartbeat
  /-- The account uses IDLE. -/
  idle : Bool
  /-- `poll_interval_ms`. -/
  interval : ℕ
  failures : ℕ
  /-- The last fetch has reached the server. -/
  fetched : Bool
  phase : Phase
  since : ℕ
  beatAt : ℕ
  noise : ℕ
  deriving DecidableEq

def Loop.beat (l : Loop) (now : ℕ) : Loop :=
  { l with hb := l.hb.beat now, beatAt := now, noise := 0 }

/-- The loop waits for something new. -/
def Loop.enter (l : Loop) (now : ℕ) (phase : Phase) : Loop :=
  { l with phase, since := now }

/-- The loop is at its condition. -/
def Loop.top (running : Bool) (now : ℕ) (l : Loop) : Loop :=
  if running then (l.beat now).enter now .fetch else l.enter now .stopped

/-- A turn of `sleep_beating`, that ends the loop's turn. -/
def Loop.sleepBeating (running : Bool) (now finish : ℕ) (l : Loop) : Loop :=
  if finish ≤ now then (l.beat now).top running now
  else (l.beat now).enter now (.sleeping finish (now + min (finish - now) beatSlice))

/-- `deliver_carrier_messages` has returned. -/
def Loop.delivered (running : Bool) (now : ℕ) (reached : Bool) (l : Loop) : Loop :=
  if l.idle then { (l.beat now).enter now .opening with fetched := reached }
  else
    let failures := count l.failures reached
    { l with failures }.sleepBeating running now (now + carrierBackoff l.interval failures)

/-- `deliver_carrier_messages` goes on to the next message, or returns. -/
def Loop.next (running : Bool) (now : ℕ) (l : Loop) : ℕ → Loop
  | left + 1 => (l.beat now).enter now (.message left)
  | 0 => l.delivered running now true

/-- The error branch of `run_imap_carrier`. -/
def Loop.idleFailed (running : Bool) (now : ℕ) (l : Loop) : Loop :=
  let failures := count (if l.fetched then count l.failures true else l.failures) false
  { l with failures }.sleepBeating running now (now + carrierBackoff l.interval failures)

/-- The loop of `idle_wait` begins a turn. -/
def Loop.slice (now deadline : ℕ) (l : Loop) : Loop :=
  l.enter now (.idling deadline (min deadline (now + beatSlice)))

/-- `run_imap_carrier` with `idle_wait`, and `pull_loop`. -/
def Loop.step (running : Bool) (now : ℕ) (l : Loop) : Event → Option Loop
  | .fetched found => match l.phase with
    | .fetch => some (found.elim (l.delivered running now false) (l.next running now))
    | _ => none
  | .handled => match l.phase with
    | .message left => some (l.next running now left)
    | _ => none
  | .opened outcome => match l.phase with
    | .opening => some (match outcome with
      | .idling => l.slice now (now + recycle)
      | .mail => l.enter now (.leaving false)
      -- `run_polling_loop` has a count of its own
      | .notSupported => { l with idle := false, failures := 0 }.top running now
      | .failed => l.idleFailed running now)
    | _ => none
  | .data => match l.phase with
    | .idling deadline _ => some (l.enter now (.reading deadline))
    | _ => none
  | .dropped => match l.phase with
    | .idling _ _ => some (l.idleFailed running now)
    | _ => none
  | .quiet => match l.phase with
    | .idling deadline wake =>
      if wake ≤ now then
        if deadline ≤ now then some (l.enter now (.leaving true))
        else some ((l.beat now).slice now deadline)
      else none
    | _ => none
  | .line line => match l.phase with
    | .reading deadline => some (match line with
      | .mail => l.enter now (.leaving true)
      -- neither a beat nor a look at the deadline
      | .other => { l.slice now deadline with noise := l.noise + 1 }
      | .failed => l.idleFailed running now)
    | _ => none
  | .left ok => match l.phase with
    | .leaving done =>
      if ok then some ({ l with failures := count l.failures true }.top running now)
      -- DONE could not be written; what goes wrong after that is not looked at
      else if done then some (l.idleFailed running now)
      else none
    | _ => none
  | .wake => match l.phase with
    | .sleeping finish wake =>
      if wake ≤ now then some (l.sleepBeating running now finish) else none
    | _ => none

/-- An account of the configuration. -/
structure Account where
  name : Bytes
  idle : Bool
  interval : ℕ

def Loop.start (now : ℕ) (a : Account) : Loop :=
  { hb := registerHeartbeat a.name pullMaxSilenceSecs now, idle := a.idle, interval := a.interval
    failures := 0, fetched := false, phase := .fetch, since := now, beatAt := now, noise := 0 }

end Pull

/-! ## The gateway -/

/-- `lastWatch` is a ghost, the time of the last pass of the watchdog. -/
structure State where
  now : ℕ
  running : Bool
  lambdaAlive : Bool
  dispatch : Dispatch.Loop
  pulls : List Pull.Loop
  reported : List Bytes
  /-- When the watchdog ticks next. -/
  watchAt : ℕ
  lastWatch : ℕ
  /-- The code that the watchdog has ended the process with. -/
  exit : Option ℕ
  deriving DecidableEq

inductive Event
  | pass (d : ℕ)
  | dispatch (e : Dispatch.Event)
  | pull (i : ℕ) (e : Pull.Event)
  | lambda (alive : Bool)
  | stop
  | watch
  deriving DecidableEq

def State.beats (s : State) : List LoopHeartbeat := s.dispatch.hb :: s.pulls.map (·.hb)

/-- What `health_body` judges. -/
def State.tick (s : State) : Tick := ⟨s.lambdaAlive, s.beats.map (·.snapshot s.now)⟩

/-- The next tick of an interval that skips the ticks it has missed. -/
def nextTick (now watchAt : ℕ) : ℕ :=
  watchAt + ((now - watchAt) / stallWatchInterval + 1) * stallWatchInterval

/-- A pass of the watchdog. -/
def State.watch (policy : OnStall) (s : State) : State :=
  let pass := Watchdog.tick policy s.reported s.tick
  { s with
    reported := pass.reported, exit := pass.exit
    watchAt := nextTick s.now s.watchAt, lastWatch := s.now }

/-- Once the watchdog has ended the process, nothing happens. -/
def step (policy : OnStall) (s : State) (e : Event) : Option State :=
  if s.exit.isSome then none
  else match e with
    | .pass d => some { s with now := s.now + d }
    | .dispatch e =>
      (s.dispatch.step s.running s.now e).map fun dispatch => { s with dispatch }
    | .pull i e => s.pulls[i]?.bind fun l =>
      (l.step s.running s.now e).map fun l => { s with pulls := s.pulls.set i l }
    | .lambda alive => some { s with lambdaAlive := alive }
    | .stop => some { s with running := false }
    -- a watchdog that finds the gateway stopped ends
    | .watch => if s.running ∧ s.watchAt ≤ s.now then some (s.watch policy) else none

def start (now : ℕ) (lambdaAlive : Bool) (accounts : List Pull.Account) : State :=
  { now, running := true, lambdaAlive, dispatch := .start now, pulls := accounts.map (.start now)
    reported := [], watchAt := now, lastWatch := now, exit := none }

/-! ## The watchdog -/

variable {policy : OnStall} {s t : State} {e : Event} {es : List Event}

theorem stalled_iff (s : State) (name : Bytes) : Stalled s.tick name ↔
    ∃ hb ∈ s.beats, hb.name = name ∧ hb.maxSilenceSecs < (hb.snapshot s.now).ageSecs := by
  constructor
  · rintro ⟨b, hb, hname, hage⟩
    obtain ⟨beat, hmem, rfl⟩ := List.mem_map.1 hb
    exact ⟨beat, hmem, hname, hage⟩
  · rintro ⟨hb, hmem, hname, hage⟩
    exact ⟨_, List.mem_map_of_mem hmem, hname, hage⟩

/-- What a step can do, once the process has not ended. -/
theorem step_cases : step policy s e = some t → s.exit = none ∧
    match e with
    | .pass d => t = { s with now := s.now + d }
    | .dispatch e => ∃ l, s.dispatch.step s.running s.now e = some l ∧ t = { s with dispatch := l }
    | .pull i e => ∃ l l', s.pulls[i]? = some l ∧ l.step s.running s.now e = some l' ∧
        t = { s with pulls := s.pulls.set i l' }
    | .lambda alive => t = { s with lambdaAlive := alive }
    | .stop => t = { s with running := false }
    | .watch => s.running = true ∧ s.watchAt ≤ s.now ∧ t = s.watch policy := by
  intro h
  unfold step at h
  by_cases hexit : s.exit.isSome
  · rw [if_pos hexit] at h
    cases h
  rw [if_neg hexit] at h
  refine ⟨Option.not_isSome_iff_eq_none.1 hexit, ?_⟩
  cases e with
  | pass d | lambda alive | stop => exact (Option.some.inj h).symm
  | dispatch e =>
    obtain ⟨l, hl, rfl⟩ := Option.map_eq_some_iff.1 h
    exact ⟨l, hl, rfl⟩
  | pull i e =>
    obtain ⟨l, hl, h⟩ := Option.bind_eq_some_iff.1 h
    obtain ⟨l', hl', rfl⟩ := Option.map_eq_some_iff.1 h
    exact ⟨l, l', hl, hl', rfl⟩
  | watch =>
    dsimp only at h
    split_ifs at h with hwatch
    exact ⟨hwatch.1, hwatch.2, (Option.some.inj h).symm⟩

end Antie.Heartbeats
