import AxiomCarriers.Lib.Separator
import AxiomCarriers.Lib.Text
import Mathlib.Data.List.Induction

/-!
# The stall watchdog

`health_verdict` writes the loops whose heartbeat is older than its bound as texts, and
`stall_watchdog_tick` reads their names back, forgets those that have recovered and reports the new
ones.  Over any ticks a loop is reported when it stalls, and not again until it has recovered
(`stall_reported_once`).
-/

namespace Antie.Watchdog

open Bytes Text Separator

/-- A heartbeat at one instant. -/
structure HeartbeatSnapshot where
  name : Bytes
  ageSecs : ℕ
  maxSilenceSecs : ℕ

structure Verdict where
  ok : Bool
  lambdaAlive : Bool
  /-- Every stalled loop, as its name, a blank and its age in seconds. -/
  stalled : List Bytes
  oldestHeartbeatAgeSecs : ℕ

inductive OnStall
  | notifyOnly
  | notifyAndRestart
  deriving DecidableEq

/-- `STALL_EXIT_CODE`. -/
def stallExitCode : ℕ := 75

def stalledText (b : HeartbeatSnapshot) : Bytes := b.name ++ 32 :: (decimal b.ageSecs ++ [115])

/-- `health_verdict`. -/
def healthVerdict (lambdaAlive : Bool) (beats : List HeartbeatSnapshot) : Verdict :=
  let stalled := (beats.filter fun b => b.maxSilenceSecs < b.ageSecs).map stalledText
  { ok := lambdaAlive && stalled.isEmpty
    lambdaAlive
    stalled
    oldestHeartbeatAgeSecs := (beats.map (·.ageSecs)).foldr max 0 }

/-- The name in front of the last blank. -/
def nameOf (s : Bytes) : Bytes := ((lastCut 32 s).map (·.1)).getD s

/-- A stalled loop is reported unless it has been: the reported loops, and the fresh ones. -/
def report (acc : List Bytes × List Bytes) (name : Bytes) : List Bytes × List Bytes :=
  if name ∈ acc.1 then acc else (acc.1 ++ [name], acc.2 ++ [name])

/-- What a pass of the watchdog leaves and returns, and the code that it exits with. -/
structure Pass where
  reported : List Bytes
  fresh : List Bytes
  exit : Option ℕ
  deriving DecidableEq

/-- `stall_watchdog_tick`. -/
def stallWatchdogTick (verdict : Verdict) (policy : OnStall) (reported : List Bytes) : Pass :=
  let nowStalled := verdict.stalled.map nameOf
  let (reported, fresh) := nowStalled.foldl report (reported.filter (· ∈ nowStalled), [])
  ⟨reported, fresh, if fresh ≠ [] ∧ policy = .notifyAndRestart then some stallExitCode else none⟩

/-- What the watchdog sees at a tick. -/
structure Tick where
  lambdaAlive : Bool
  beats : List HeartbeatSnapshot

/-- The pass at a tick. -/
def tick (policy : OnStall) (reported : List Bytes) (t : Tick) : Pass :=
  stallWatchdogTick (healthVerdict t.lambdaAlive t.beats) policy reported

/-- The reported loops after some ticks. -/
def reportedAfter (policy : OnStall) (ticks : List Tick) : List Bytes :=
  ticks.foldl (fun reported t => (tick policy reported t).reported) []

/-! ## The names -/

/-- A loop is silent past its bound. -/
def Stalled (t : Tick) (name : Bytes) : Prop :=
  ∃ b ∈ t.beats, b.name = name ∧ b.maxSilenceSecs < b.ageSecs

/-- A name may have blanks in it; the age has none. -/
theorem nameOf_stalledText (b : HeartbeatSnapshot) : nameOf (stalledText b) = b.name := by
  have hblank : 32 ∉ decimal b.ageSecs ++ [115] := by
    rw [List.mem_append, not_or]
    exact ⟨fun h => absurd (isDigit_of_mem_decimal h) (by decide), by decide⟩
  rw [nameOf, stalledText, lastCut_append hblank]
  rfl

theorem mem_nowStalled (t : Tick) (name : Bytes) :
    name ∈ (healthVerdict t.lambdaAlive t.beats).stalled.map nameOf ↔ Stalled t name := by
  rw [healthVerdict, List.map_map]
  simp only [List.mem_map, List.mem_filter, decide_eq_true_eq, Function.comp_apply,
    nameOf_stalledText]
  constructor
  · rintro ⟨b, ⟨hb, hage⟩, rfl⟩
    exact ⟨b, hb, rfl, hage⟩
  · rintro ⟨b, hb, rfl, hage⟩
    exact ⟨b, ⟨hb, hage⟩, rfl⟩

/-! ## The passes -/

/-- The names that were not reported are added, each once. -/
theorem foldl_report (names reported fresh : List Bytes) : ∃ new,
    names.foldl report (reported, fresh) = (reported ++ new, fresh ++ new) ∧ new.Nodup ∧
      ∀ name, name ∈ new ↔ name ∈ names ∧ name ∉ reported := by
  induction names generalizing reported fresh with
  | nil => exact ⟨[], by simp⟩
  | cons n names ih =>
    by_cases hn : n ∈ reported
    · obtain ⟨new, hfold, hnodup, hnew⟩ := ih reported fresh
      refine ⟨new, ?_, hnodup, fun name => (hnew name).trans ?_⟩
      · rw [List.foldl_cons, report, if_pos hn, hfold]
      · rw [List.mem_cons]
        refine and_congr_left fun hname => (or_iff_right ?_).symm
        rintro rfl
        exact hname hn
    · obtain ⟨new, hfold, hnodup, hnew⟩ := ih (reported ++ [n]) (fresh ++ [n])
      refine ⟨n :: new, ?_, List.nodup_cons.2 ⟨fun h => ?_, hnodup⟩, fun name => ?_⟩
      · rw [List.foldl_cons, report, if_neg hn, hfold]
        simp
      · exact ((hnew n).1 h).2 (by simp)
      · simp only [List.mem_cons, hnew, List.mem_append, List.not_mem_nil, or_false, not_or]
        by_cases hname : name = n
        · simp [hname, hn]
        · simp [hname]

/-- What a pass does. -/
theorem tick_eq (policy : OnStall) (reported : List Bytes) (t : Tick) : ∃ kept fresh,
    tick policy reported t = ⟨kept ++ fresh, fresh,
        if fresh ≠ [] ∧ policy = .notifyAndRestart then some stallExitCode else none⟩ ∧
      kept.Sublist reported ∧ fresh.Nodup ∧
      (∀ name, name ∈ kept ↔ name ∈ reported ∧ Stalled t name) ∧
      ∀ name, name ∈ fresh ↔ Stalled t name ∧ name ∉ reported := by
  obtain ⟨fresh, hfold, hnodup, hfresh⟩ := foldl_report
    ((healthVerdict t.lambdaAlive t.beats).stalled.map nameOf)
    (reported.filter (· ∈ (healthVerdict t.lambdaAlive t.beats).stalled.map nameOf)) []
  refine ⟨reported.filter (· ∈ (healthVerdict t.lambdaAlive t.beats).stalled.map nameOf), fresh,
    ?_, List.filter_sublist, hnodup, fun name => ?_, fun name => ?_⟩
  · rw [tick, stallWatchdogTick, hfold]
    rfl
  · rw [List.mem_filter, decide_eq_true_eq, mem_nowStalled]
  · rw [hfresh, List.mem_filter, decide_eq_true_eq, mem_nowStalled]
    tauto

/-- At every tick the reported loops are the stalled ones. -/
theorem reported_tick (policy : OnStall) {reported : List Bytes} (hreported : reported.Nodup)
    (t : Tick) : (tick policy reported t).reported.Nodup ∧
      ∀ name, name ∈ (tick policy reported t).reported ↔ Stalled t name := by
  obtain ⟨kept, fresh, htick, hsub, hnodup, hkept, hfresh⟩ := tick_eq policy reported t
  rw [htick]
  refine ⟨List.nodup_append.2 ⟨hreported.sublist hsub, hnodup, fun x hx y hy hxy => ?_⟩,
    fun name => ?_⟩
  · exact ((hfresh y).1 hy).2 (hxy ▸ ((hkept x).1 hx).1)
  · rw [List.mem_append, hkept, hfresh]
    tauto

theorem reportedAfter_concat (policy : OnStall) (ticks : List Tick) (t : Tick) :
    reportedAfter policy (ticks ++ [t]) = (tick policy (reportedAfter policy ticks) t).reported := by
  rw [reportedAfter, List.foldl_append]
  rfl

theorem reportedAfter_spec (policy : OnStall) (ticks : List Tick) :
    (reportedAfter policy ticks).Nodup ∧
      ∀ name, name ∈ reportedAfter policy ticks ↔ ∃ t ∈ ticks.getLast?, Stalled t name := by
  induction ticks using List.reverseRecOn with
  | nil => exact ⟨List.nodup_nil, by simp [reportedAfter]⟩
  | append_singleton ticks t ih =>
    rw [reportedAfter_concat, List.getLast?_concat]
    simpa using reported_tick policy ih.1 t

/-- At every tick of a history the reported loops are the stalled ones, each once; a loop is fresh if
and only if it is stalled and was not at the tick before; and the watchdog exits if and only if some
loop is fresh and the policy is to restart. -/
theorem stall_reported_once (policy : OnStall) (ticks : List Tick) (t : Tick) :
    let pass := tick policy (reportedAfter policy ticks) t
    (pass.reported.Nodup ∧ ∀ name, name ∈ pass.reported ↔ Stalled t name) ∧
      (pass.fresh.Nodup ∧ ∀ name, name ∈ pass.fresh ↔
        Stalled t name ∧ ¬ ∃ last ∈ ticks.getLast?, Stalled last name) ∧
      (pass.exit.isSome ↔ (∃ name, name ∈ pass.fresh) ∧ policy = .notifyAndRestart) ∧
      ∀ code ∈ pass.exit, code = 75 := by
  obtain ⟨hreported, hlast⟩ := reportedAfter_spec policy ticks
  refine ⟨reported_tick policy hreported t, ?_⟩
  obtain ⟨kept, fresh, htick, -, hnodup, -, hfresh⟩ := tick_eq policy (reportedAfter policy ticks) t
  rw [htick]
  refine ⟨⟨hnodup, fun name => by rw [hfresh, hlast]⟩, ?_, fun code hcode => ?_⟩
  · have hne : fresh ≠ [] ↔ ∃ name, name ∈ fresh := by
      rw [Ne, List.eq_nil_iff_forall_not_mem, not_forall_not]
    dsimp only
    rw [← hne]
    split_ifs with h <;> simp [h]
  · dsimp only at hcode
    split_ifs at hcode
    · exact (Option.mem_some.1 hcode).symm
    · cases hcode

/-- A loop whose name has a blank stalls, recovers and stalls again. -/
example :
    let slow : Tick := ⟨true, [⟨ascii "pull pop3", 601, 600⟩, ⟨ascii "dispatch", 3, 600⟩]⟩
    let well : Tick := ⟨true, [⟨ascii "pull pop3", 1, 600⟩, ⟨ascii "dispatch", 3, 600⟩]⟩
    (tick .notifyAndRestart (reportedAfter .notifyAndRestart [slow]) slow).fresh = [] ∧
      tick .notifyAndRestart (reportedAfter .notifyAndRestart [slow, well]) slow =
        ⟨[ascii "pull pop3"], [ascii "pull pop3"], some 75⟩ := by
  decide +kernel

end Antie.Watchdog
