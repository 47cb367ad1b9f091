import AxiomCarriers.Lib.FairLock
import AxiomCarriers.Lib.Run

/-!
# Stopping and supervising the Lambda child

`stop` raises the flag `shutting_down`, takes the lock on the child's handle and kills the child.
`supervision_loop` looks at the flag after each of its sleeps and then asks for the lock: the first
time to see whether the child has exited, the second time, after the backoff, to spawn a new one.
The tasks run in parallel, so between the look at the flag and the request for the lock anything may
happen; the lock serves the requests in their order.

Once a `stop` has returned no child runs, provided that no `stop` asks for the lock between the
loop's second look at the flag and the loop's own request (`stop_final`).
-/

namespace Antie.Supervision

open FairLock Runs

/-- Who asks for the lock: the supervision loop, a call of `stop`, a call that exchanges frames. -/
inductive Owner
  | loop
  | stop (i : ℕ)
  | call
  deriving DecidableEq

/-- Where the supervision loop is.  `respawn` tells its second look and request from the first. -/
inductive LoopPc
  /-- It sleeps for the poll interval. -/
  | poll
  /-- It sleeps for the backoff. -/
  | backoff
  /-- It has seen the flag down. -/
  | seen (respawn : Bool)
  /-- It has asked for the lock. -/
  | locking (respawn : Bool)
  /-- It has spawned a child and released the lock. -/
  | respawned
  /-- It has asked for the lock to push the carrier list again. -/
  | pushing
  | done
  deriving DecidableEq

/-- Where a call of `stop` is. -/
inductive StopPc
  /-- It has raised the flag. -/
  | flagged
  /-- It has asked for the lock. -/
  | locking
  /-- It holds the lock and waits for the child to die. -/
  | killing (pid : ℕ)
  | returned
  deriving DecidableEq

structure State where
  shuttingDown : Bool
  /-- The child whose handle the lock protects. -/
  child : Option ℕ
  queue : List Owner
  /-- The Lambda processes that run. -/
  running : List ℕ
  next : ℕ
  loop : LoopPc
  stops : List StopPc
  deriving DecidableEq

/-- The loop starts; there is a child that runs, one that has exited, or none. -/
def start (child : Option Bool) : State :=
  ⟨false, child.map fun _ => 0, [], if child = some true then [0] else [], 1, .poll, []⟩

inductive Event
  /-- The loop wakes up and looks at the flag. -/
  | look
  /-- The loop asks for the lock after a look at the flag. -/
  | ask
  /-- The loop holds the lock and calls `try_wait`, which may fail. -/
  | inspect (fails : Bool)
  /-- The loop holds the lock again and spawns a child if there is none; spawning may fail. -/
  | respawn (ok : Bool)
  /-- The loop asks for the lock to push the carrier list, if there is one. -/
  | push (listed : Bool)
  | pushed
  /-- `stop` is called and raises the flag. -/
  | stop
  | stopAsks (i : ℕ)
  | stopLocked (i : ℕ)
  /-- The process of the child that `stop` kills is gone. -/
  | killed (i : ℕ)
  /-- Another call asks for the lock, and releases it. -/
  | callAsks
  | callDone
  /-- A process exits by itself. -/
  | exit (pid : ℕ)
  deriving DecidableEq

def step (s : State) : Event → Option State
  | .look =>
    if s.loop = .poll ∨ s.loop = .backoff then
      some { s with loop := if s.shuttingDown then .done else .seen (s.loop = .backoff) }
    else none
  | .ask =>
    match s.loop with
    | .seen respawn => some { s with loop := .locking respawn, queue := request s.queue .loop }
    | _ => none
  | .inspect fails =>
    if s.loop = .locking false ∧ Holds s.queue .loop then
      let s := { s with queue := release s.queue }
      match s.child with
      | none => some { s with loop := .backoff }
      | some pid =>
        if fails ∨ pid ∈ s.running then some { s with loop := .poll }
        else some { s with child := none, loop := .backoff }
    else none
  | .respawn ok =>
    if s.loop = .locking true ∧ Holds s.queue .loop then
      let s := { s with queue := release s.queue }
      if s.child = none ∧ ok then
        some { s with
          child := some s.next, running := s.next :: s.running, next := s.next + 1
          loop := .respawned }
      else some { s with loop := .poll }
    else none
  | .push listed =>
    if s.loop = .respawned then
      if listed then some { s with loop := .pushing, queue := request s.queue .loop }
      else some { s with loop := .poll }
    else none
  | .pushed =>
    if s.loop = .pushing ∧ Holds s.queue .loop then
      some { s with loop := .poll, queue := release s.queue }
    else none
  | .stop => some { s with shuttingDown := true, stops := s.stops ++ [.flagged] }
  | .stopAsks i =>
    if s.stops[i]? = some .flagged then
      some { s with stops := s.stops.set i .locking, queue := request s.queue (.stop i) }
    else none
  | .stopLocked i =>
    if s.stops[i]? = some .locking ∧ Holds s.queue (.stop i) then
      match s.child with
      | none => some { s with stops := s.stops.set i .returned, queue := release s.queue }
      | some pid => some { s with stops := s.stops.set i (.killing pid), child := none }
    else none
  | .killed i =>
    match s.stops[i]? with
    | some (.killing pid) =>
      some { s with
        running := s.running.filter (· ≠ pid), stops := s.stops.set i .returned
        queue := release s.queue }
    | _ => none
  | .callAsks => some { s with queue := request s.queue .call }
  | .callDone => if Holds s.queue .call then some { s with queue := release s.queue } else none
  | .exit pid => some { s with running := s.running.filter (· ≠ pid) }

/-- Once a `stop` has returned, no Lambda process runs. -/
def Final (s : State) : Prop := .returned ∈ s.stops → s.running = []

instance (s : State) : Decidable (Final s) := inferInstanceAs (Decidable (_ → _))

/-- No `stop` asks for the lock between the loop's second look at the flag and its request. -/
def Ordered (s : State) (e : Event) : Prop := ∀ i, e = .stopAsks i → s.loop ≠ .seen true

instance (s : State) : (e : Event) → Decidable (Ordered s e)
  | .stopAsks i => decidable_of_iff (s.loop ≠ .seen true) (by simp [Ordered])
  | .look | .ask | .inspect _ | .respawn _ | .push _ | .pushed | .stop | .stopLocked _ | .killed _
  | .callAsks | .callDone | .exit _ => .isTrue (by simp [Ordered])

/-- A call of `stop` asks for the lock. -/
def Owner.IsStop (o : Owner) : Prop := ∃ i, o = .stop i

/-- What holds in every state of a run in which no `stop` asks at the wrong moment. -/
structure Inv (s : State) : Prop where
  /-- Every process is the child, or a `stop` is killing it. -/
  owned : ∀ pid ∈ s.running, s.child = some pid ∨ ∃ i : ℕ, s.stops[i]? = some (.killing pid)
  /-- A `stop` that is killing holds the lock. -/
  killing : ∀ (i : ℕ) pid, s.stops[i]? = some (.killing pid) → Holds s.queue (.stop i)
  flag : s.stops ≠ [] → s.shuttingDown = true
  /-- While a `stop` waits for the lock the loop is not about to ask for it. -/
  waiting : ∀ i, .stop i ∈ s.queue → s.stops ≠ [] ∧ s.loop ≠ .seen true
  /-- The loop that will spawn gets the lock before every `stop`. -/
  ahead : s.loop = .locking true → Ahead s.queue .loop Owner.IsStop
  /-- After a `stop` has taken the child the loop will not spawn another one. -/
  taken : ∀ p ∈ s.stops, (p = .returned ∨ ∃ pid, p = .killing pid) →
    s.child = none ∧ s.loop ≠ .seen true ∧ s.loop ≠ .locking true
  final : Final s

theorem inv_start (child : Option Bool) : Inv (start child) where
  owned pid h := by
    rcases child with - | - | - <;> simp_all [start]
  killing i pid h := by simp [start] at h
  flag h := absurd rfl h
  waiting i h := by simp [start] at h
  ahead h := by simp [start] at h
  taken p h := by simp [start] at h
  final h := by simp [start] at h

theorem ne_nil_of_stop {stops : List StopPc} {i : ℕ} {p : StopPc} (h : stops[i]? = some p) :
    stops ≠ [] := List.ne_nil_of_mem (List.mem_of_getElem? h)

/-- A `stop` that is killing after another one has moved on was killing before. -/
theorem killing_of_set {stops : List StopPc} {i j pid : ℕ} {p : StopPc} (hp : p ≠ .killing pid)
    (h : (stops.set i p)[j]? = some (.killing pid)) : i ≠ j ∧ stops[j]? = some (.killing pid) := by
  rw [List.getElem?_set] at h
  split at h
  · split at h
    · exact absurd (Option.some.inj h) hp
    · cases h
  next hne => exact ⟨hne, h⟩

section

variable {s : State} (hs : Inv s)
include hs

/-- A stop that is killing shows who holds the lock. -/
theorem Inv.not_killing {o : Owner} (h : Holds s.queue o) {i pid : ℕ} (hne : o ≠ .stop i) :
    s.stops[i]? ≠ some (.killing pid) :=
  fun hk => hne (h.unique (hs.killing i pid hk))

/-- The loop cannot be about to spawn when a `stop` has the lock. -/
theorem Inv.not_spawning {i : ℕ} (h : Holds s.queue (.stop i)) :
    s.loop ≠ .seen true ∧ s.loop ≠ .locking true :=
  ⟨(hs.waiting i h.mem).2, fun hl => (hs.ahead hl).not_holds ⟨i, rfl⟩ (by simp) h⟩

/-- The `stop` that has just got the lock finds no child: nothing runs. -/
theorem Inv.nothing_runs {i : ℕ} (hi : s.stops[i]? = some .locking) (hq : Holds s.queue (.stop i))
    (hc : s.child = none) : s.running = [] := by
  refine List.eq_nil_iff_forall_not_mem.2 fun pid h => ?_
  rcases hs.owned pid h with h | ⟨j, hj⟩
  · simp [hc] at h
  · refine hs.not_killing hq ?_ hj
    rintro ⟨⟩
    simp [hi] at hj

/-! ### Steps of the loop -/

/-- The loop goes on without the lock; it has seen the flag down only if no `stop` has begun. -/
theorem Inv.loop_moves {loop : LoopPc} (hlock : loop ≠ .locking true)
    (hseen : loop = .seen true → s.stops = []) : Inv { s with loop } where
  owned := hs.owned
  killing := hs.killing
  flag := hs.flag
  waiting i h := ⟨(hs.waiting i h).1, fun hl => absurd (hseen hl) (hs.waiting i h).1⟩
  ahead h := absurd h hlock
  taken p hp h := ⟨(hs.taken p hp h).1, fun hl => by simp [hseen hl] at hp, hlock⟩
  final := hs.final

/-- The loop asks for the lock; it is to spawn a child only after its second look. -/
theorem Inv.loop_asks {loop : LoopPc} (hseen : loop ≠ .seen true)
    (hlock : loop = .locking true → s.loop = .seen true) :
    Inv { s with loop, queue := request s.queue .loop } where
  owned := hs.owned
  killing i pid h := (hs.killing i pid h).request _
  flag := hs.flag
  waiting i h := by
    rcases mem_request.1 h with h | h
    · exact ⟨(hs.waiting i h).1, hseen⟩
    · cases h
  ahead h := by
    refine ahead_of_request (fun o ho hstop => ?_) _
    obtain ⟨i, rfl⟩ := hstop
    exact (hs.waiting i ho).2 (hlock h)
  taken p hp h := by
    obtain ⟨hchild, hnot, -⟩ := hs.taken p hp h
    exact ⟨hchild, hseen, fun hl => hnot (hlock hl)⟩
  final := hs.final

/-- The loop releases the lock and goes to sleep; it may have dropped the handle of a child that has
exited. -/
theorem Inv.loop_releases (hq : Holds s.queue .loop) {loop : LoopPc} {child : Option ℕ}
    (hseen : loop ≠ .seen true) (hlock : loop ≠ .locking true)
    (hchild : child = s.child ∨ child = none ∧ ∀ pid ∈ s.running, s.child ≠ some pid) :
    Inv { s with loop, child, queue := release s.queue } where
  owned pid h := by
    rcases hchild with rfl | ⟨rfl, hexit⟩
    · exact hs.owned pid h
    · exact (hs.owned pid h).imp_left fun hc => absurd hc (hexit pid h)
  killing i pid h := absurd h (hs.not_killing hq (by simp))
  flag := hs.flag
  waiting i h := ⟨(hs.waiting i (mem_of_mem_release h)).1, hseen⟩
  ahead h := absurd h hlock
  taken p hp h := by
    refine ⟨?_, hseen, hlock⟩
    rcases hchild with rfl | ⟨rfl, -⟩
    · exact (hs.taken p hp h).1
    · rfl
  final := hs.final

/-- The loop spawns a child: no `stop` has taken the old one. -/
theorem Inv.loop_spawns (hl : s.loop = .locking true) (hq : Holds s.queue .loop)
    (hc : s.child = none) :
    Inv { s with
      queue := release s.queue, child := some s.next, running := s.next :: s.running
      next := s.next + 1, loop := .respawned } where
  owned pid h := by
    rcases List.mem_cons.1 h with rfl | h
    · exact Or.inl rfl
    · exact Or.inr ((hs.owned pid h).resolve_left (by simp [hc]))
  killing i pid h := absurd h (hs.not_killing hq (by simp))
  flag := hs.flag
  waiting i h := ⟨(hs.waiting i (mem_of_mem_release h)).1, by simp⟩
  ahead h := by cases h
  taken p hp h := absurd hl (hs.taken p hp h).2.2
  final h := absurd hl (hs.taken _ h (Or.inl rfl)).2.2

/-! ### Steps of a `stop` -/

theorem Inv.stop_begins : Inv { s with shuttingDown := true, stops := s.stops ++ [.flagged] } where
  owned pid h := by
    refine (hs.owned pid h).imp_right fun ⟨i, hi⟩ => ⟨i, ?_⟩
    exact (List.getElem?_append_left (List.getElem?_eq_some_iff.1 hi).1).trans hi
  killing i pid h := by
    rw [List.getElem?_append] at h
    split at h
    · exact hs.killing i pid h
    · cases List.mem_singleton.1 (List.mem_of_getElem? h)
  flag _ := rfl
  waiting i h := ⟨by simp, (hs.waiting i h).2⟩
  ahead := hs.ahead
  taken p hp h := by
    rcases List.mem_append.1 hp with hp | hp
    · exact hs.taken p hp h
    · obtain rfl := List.mem_singleton.1 hp
      simp at h
  final h := hs.final (by simpa using h)

theorem Inv.stop_asks {i : ℕ} (hi : s.stops[i]? = some .flagged) (hloop : s.loop ≠ .seen true) :
    Inv { s with stops := s.stops.set i .locking, queue := request s.queue (.stop i) } where
  owned pid h := by
    refine (hs.owned pid h).imp_right fun ⟨j, hj⟩ => ⟨j, ?_⟩
    rw [List.getElem?_set_ne, hj]
    rintro rfl
    simp [hi] at hj
  killing j pid h := by
    obtain ⟨-, h⟩ := killing_of_set (by simp) h
    exact (hs.killing j pid h).request _
  flag _ := hs.flag (ne_nil_of_stop hi)
  waiting j _ := ⟨by simpa using ne_nil_of_stop hi, hloop⟩
  ahead h := (hs.ahead h).request _
  taken p hp h := by
    rcases List.mem_or_eq_of_mem_set hp with hp | rfl
    · exact hs.taken p hp h
    · simp at h
  final h := hs.final ((List.mem_or_eq_of_mem_set h).resolve_right (by simp))

/-- The `stop` that gets the lock and finds no child returns: nothing runs. -/
theorem Inv.stop_returns {i : ℕ} (hi : s.stops[i]? = some .locking) (hq : Holds s.queue (.stop i))
    (hc : s.child = none) :
    Inv { s with stops := s.stops.set i .returned, queue := release s.queue } where
  owned pid h := by
    rw [hs.nothing_runs hi hq hc] at h
    cases h
  killing j pid h := by
    obtain ⟨hne, h⟩ := killing_of_set (by simp) h
    exact absurd h (hs.not_killing hq (by simpa using hne))
  flag _ := hs.flag (ne_nil_of_stop hi)
  waiting j h := ⟨by simpa using ne_nil_of_stop hi, (hs.not_spawning hq).1⟩
  ahead h := absurd h (hs.not_spawning hq).2
  taken p hp h := ⟨hc, hs.not_spawning hq⟩
  final _ := hs.nothing_runs hi hq hc

/-- The `stop` that gets the lock takes the child. -/
theorem Inv.stop_takes {i pid : ℕ} (hi : s.stops[i]? = some .locking)
    (hq : Holds s.queue (.stop i)) (hc : s.child = some pid) :
    Inv { s with stops := s.stops.set i (.killing pid), child := none } where
  owned pid' h := by
    right
    rcases hs.owned pid' h with h | ⟨j, hj⟩
    · obtain rfl := Option.some.inj (hc.symm.trans h)
      exact ⟨i, List.getElem?_set_self (List.getElem?_eq_some_iff.1 hi).1⟩
    · exact absurd hj (hs.not_killing hq (by rintro ⟨⟩; simp [hi] at hj))
  killing j pid' h := by
    rcases eq_or_ne i j with rfl | hne
    · exact hq
    · exact hs.killing j pid' ((List.getElem?_set_ne hne).symm.trans h)
  flag _ := hs.flag (ne_nil_of_stop hi)
  waiting j h := ⟨by simpa using ne_nil_of_stop hi, (hs.not_spawning hq).1⟩
  ahead h := absurd h (hs.not_spawning hq).2
  taken p hp h := ⟨rfl, hs.not_spawning hq⟩
  final h := hs.final ((List.mem_or_eq_of_mem_set h).resolve_right (by simp))

/-- The killed child was the last process. -/
theorem Inv.stop_kills {i pid : ℕ} (hi : s.stops[i]? = some (.killing pid)) :
    Inv { s with
      running := s.running.filter (· ≠ pid), stops := s.stops.set i .returned
      queue := release s.queue } := by
  have hq := hs.killing i pid hi
  have htaken := hs.taken _ (List.mem_of_getElem? hi) (Or.inr ⟨pid, rfl⟩)
  have hnone : s.running.filter (· ≠ pid) = [] := by
    refine List.filter_eq_nil_iff.2 fun pid' h => ?_
    rcases hs.owned pid' h with h | ⟨j, hj⟩
    · simp [htaken.1] at h
    · obtain rfl : i = j := by simpa using hq.unique (hs.killing j pid' hj)
      obtain rfl := StopPc.killing.inj (Option.some.inj (hi.symm.trans hj))
      simp
  exact
    { owned := fun pid' h => absurd (hnone ▸ h : pid' ∈ []) List.not_mem_nil
      killing := fun j pid' h => by
        obtain ⟨hne, h⟩ := killing_of_set (by simp) h
        exact absurd h (hs.not_killing hq (by simpa using hne))
      flag := fun _ => hs.flag (ne_nil_of_stop hi)
      waiting := fun j _ => ⟨by simpa using ne_nil_of_stop hi, htaken.2.1⟩
      ahead := fun h => absurd h htaken.2.2
      taken := fun _ _ _ => htaken
      final := fun _ => hnone }

/-! ### Steps of the others -/

theorem Inv.call_asks : Inv { s with queue := request s.queue .call } where
  owned := hs.owned
  killing i pid h := (hs.killing i pid h).request _
  flag := hs.flag
  waiting i h := hs.waiting i ((mem_request.1 h).resolve_right (by simp))
  ahead h := (hs.ahead h).request _
  taken := hs.taken
  final := hs.final

theorem Inv.call_done (hq : Holds s.queue .call) : Inv { s with queue := release s.queue } where
  owned := hs.owned
  killing i pid h := absurd h (hs.not_killing hq (by simp))
  flag := hs.flag
  waiting i h := hs.waiting i (mem_of_mem_release h)
  ahead h := (hs.ahead h).release hq (by simp)
  taken := hs.taken
  final := hs.final

theorem Inv.process_exits (pid : ℕ) : Inv { s with running := s.running.filter (· ≠ pid) } where
  owned pid' h := hs.owned pid' (List.mem_of_mem_filter h)
  killing := hs.killing
  flag := hs.flag
  waiting := hs.waiting
  ahead := hs.ahead
  taken := hs.taken
  final h := by
    show s.running.filter _ = []
    rw [hs.final h]
    rfl

end

/-! ### Runs -/

theorem step_inv (s : State) (e : Event) (s' : State) (hs : Inv s) (hC : Ordered s e)
    (h : step s e = some s') : Inv s' := by
  cases e with
  | look =>
    obtain ⟨-, rfl⟩ := by simpa [step] using h
    refine hs.loop_moves ?_ fun hl => ?_
    · split <;> simp
    · by_contra hne
      simp [hs.flag hne] at hl
  | ask =>
    simp only [step] at h
    split at h
    next respawn hl =>
      obtain rfl := Option.some.inj h
      refine hs.loop_asks (by simp) fun hlock => ?_
      rw [hl, LoopPc.locking.inj hlock]
    · cases h
  | inspect fails =>
    simp only [step] at h
    split at h
    next hg =>
      split at h
      next hc =>
        obtain rfl := Option.some.inj h
        exact hs.loop_releases hg.2 (by simp) (by simp) (Or.inl rfl)
      next pid hc =>
        split at h
        · obtain rfl := Option.some.inj h
          exact hs.loop_releases hg.2 (by simp) (by simp) (Or.inl rfl)
        next hrun =>
          obtain rfl := Option.some.inj h
          refine hs.loop_releases hg.2 (by simp) (by simp) (Or.inr ⟨rfl, fun pid' hp hc' => ?_⟩)
          obtain rfl := Option.some.inj (hc.symm.trans hc')
          exact hrun (Or.inr hp)
    · cases h
  | respawn ok =>
    simp only [step] at h
    split at h
    next hg =>
      split at h
      next hc =>
        obtain rfl := Option.some.inj h
        exact hs.loop_spawns hg.1 hg.2 hc.1
      · obtain rfl := Option.some.inj h
        exact hs.loop_releases hg.2 (by simp) (by simp) (Or.inl rfl)
    · cases h
  | push listed =>
    simp only [step] at h
    split at h
    · cases listed with
      | true =>
        obtain rfl := Option.some.inj h
        exact hs.loop_asks (by simp) (by simp)
      | false =>
        obtain rfl := Option.some.inj h
        exact hs.loop_moves (by simp) (by simp)
    · cases h
  | pushed =>
    obtain ⟨⟨-, hq⟩, rfl⟩ := by simpa [step] using h
    exact hs.loop_releases hq (by simp) (by simp) (Or.inl rfl)
  | stop =>
    obtain rfl := Option.some.inj h
    exact hs.stop_begins
  | stopAsks i =>
    obtain ⟨hi, rfl⟩ := by simpa [step] using h
    exact hs.stop_asks hi (hC i rfl)
  | stopLocked i =>
    simp only [step] at h
    split at h
    next hg =>
      split at h
      next hc =>
        obtain rfl := Option.some.inj h
        exact hs.stop_returns hg.1 hg.2 hc
      next pid hc =>
        obtain rfl := Option.some.inj h
        exact hs.stop_takes hg.1 hg.2 hc
    · cases h
  | killed i =>
    simp only [step] at h
    split at h
    next pid hi =>
      obtain rfl := Option.some.inj h
      exact hs.stop_kills hi
    · cases h
  | callAsks =>
    obtain rfl := Option.some.inj h
    exact hs.call_asks
  | callDone =>
    obtain ⟨hq, rfl⟩ := by simpa [step] using h
    exact hs.call_done hq
  | exit pid =>
    obtain rfl := Option.some.inj h
    exact hs.process_exits pid

/-- In a run in which no `stop` asks for the lock between the loop's second look at the flag and its
request, no Lambda process runs in any state after a `stop` has returned. -/
theorem stop_final {child : Option Bool} {es : List Event} {s : State}
    (hC : Along step Ordered (start child) es) (h : run step (start child) es = some s) :
    Final s :=
  (run_invariant step_inv (inv_start child) hC h).final

/-- The child exits, and `stop` comes while the loop waits behind a call to spawn a new one. -/
def stopWhileWaiting : List Event :=
  [.exit 0, .look, .ask, .inspect false, .callAsks, .look, .ask, .stop, .stopAsks 0, .callDone,
    .respawn true, .push false, .stopLocked 0, .killed 0, .look]

theorem stop_final_waiting :
    ∃ s, run step (start (some true)) stopWhileWaiting = some s ∧ Final s :=
  ⟨_, rfl, stop_final (by decide : Along step Ordered (start (some true)) stopWhileWaiting) rfl⟩

/-- `stop` comes after the loop's second look at the flag and before its request: it returns, and
the loop spawns a child. -/
theorem spawned_after_stop :
    ∃ s, run step (start (some false))
      [.look, .ask, .inspect false, .look, .stop, .stopAsks 0, .stopLocked 0, .ask, .respawn true] =
        some s ∧
      s.stops = [.returned] ∧ s.child = some 1 ∧ s.running = [1] ∧ ¬ Final s :=
  ⟨_, rfl, rfl, rfl, rfl, by decide⟩

end Antie.Supervision
