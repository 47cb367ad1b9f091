import AxiomCarriers.Antie.CarrierIo
import AxiomCarriers.Lib.Run
import AxiomCarriers.Lib.Table
import AxiomCarriers.Lib.Utf8
import Mathlib.Data.List.Perm.Basic

/-!
# Dispatch from the inbox

`process_carrier_messages` over a maildir, step by step, while files arrive.  A pass lists `new`,
and takes each message of the listing in turn: it is rejected as busy or processed, it is counted,
and its file is renamed into `cur`.  `dispatch_once` says what this comes to over any number of
passes: no file is listed twice, each is dispatched once and ends in `cur`, and the counters
balance.

The logs `arrived`, `seen`, `handed` and `rejected` are not part of the program.
-/

namespace Antie.Dispatch

open Bytes Utf8 Runs

abbrev Message := IncomingMessage Bytes

/-- Where the loop is with the message that it has taken. -/
inductive Stage
  | idle
  /-- `send_busy_rejection` is under way. -/
  | reject (m : Message)
  /-- `process_message` is under way. -/
  | process (m : Message)
  | mark (m : Message)
  deriving DecidableEq

/-- The counters are `AtomicU64`s. -/
structure Stats where
  received : UInt64
  processed : UInt64
  failed : UInt64
  busy : UInt64
  deriving DecidableEq

structure State where
  /-- The directories, by file names. -/
  new : List (Bytes × Bytes)
  cur : List (Bytes × Bytes)
  /-- `avg_witness_ms`. -/
  average : UInt64
  stats : Stats
  total : ℕ
  idx : ℕ
  /-- The messages of the pass that are not taken yet. -/
  queue : List Message
  stage : Stage
  arrived : List (Bytes × Bytes)
  seen : List Bytes
  handed : List Message
  rejected : List Message

inductive Event
  /-- A file is renamed into `new`. -/
  | arrive (name raw : Bytes)
  /-- The poller stores what Lambda reports. -/
  | poll (average : UInt64)
  /-- `check_new` lists these names and reads their files. -/
  | checkNew (names : List Bytes)
  /-- `check_new` fails. -/
  | checkFail
  /-- The next message is taken and goes through the gate. -/
  | take
  | rejected
  | processed (ok : Bool)
  /-- `mark_processed`, or `mark_failed`, which is the same. -/
  | mark

/-- `should_reject_busy`, with `busy_estimate_exceeds`. -/
def shouldRejectBusy (threshold average : UInt64) (queueDepth : ℕ) : Bool :=
  threshold ≠ 0 && average ≠ 0 && threshold < queueDepth.toUInt64 * average

/-- `MaildirCarrier::check_new` on a listing. -/
def read (new : List (Bytes × Bytes)) (names : List Bytes) : List Message :=
  names.filterMap fun name => (Table.get new name).map fun raw => ⟨lossy name, raw⟩

/-- `Maildir::mark_processed`: the file name in `cur`. -/
def curName (id : Bytes) : Bytes := lossy id ++ ascii ":2,S"

def step (threshold : UInt64) (s : State) : Event → Option State
  | .arrive name raw =>
    if Valid name ∧ name ∉ Table.keys s.arrived then
      some { s with new := Table.put s.new name raw, arrived := (name, raw) :: s.arrived }
    else none
  | .poll average => some { s with average := average }
  | .checkNew names =>
    if s.stage = .idle ∧ s.queue = [] ∧ names.Nodup ∧ ∀ n ∈ names, Table.get s.new n ≠ none then
      some { s with
        total := (read s.new names).length
        idx := 0
        queue := read s.new names
        seen := s.seen ++ names }
    else none
  | .checkFail => if s.stage = .idle ∧ s.queue = [] then some s else none
  | .take =>
    match s.stage, s.queue with
    | .idle, m :: queue =>
      let s := { s with
        stats := { s.stats with received := s.stats.received + 1 }
        idx := s.idx + 1
        queue := queue }
      if shouldRejectBusy threshold s.average (s.total - s.idx) then
        some { s with stage := .reject m, rejected := m :: s.rejected }
      else some { s with stage := .process m, handed := m :: s.handed }
    | _, _ => none
  | .rejected =>
    match s.stage with
    | .reject m => some { s with
        stats := { s.stats with busy := s.stats.busy + 1 }
        stage := .mark m }
    | _ => none
  | .processed ok =>
    match s.stage with
    | .process m => some { s with
        stats := if ok then { s.stats with processed := s.stats.processed + 1 }
          else { s.stats with failed := s.stats.failed + 1 }
        stage := .mark m }
    | _ => none
  | .mark =>
    match s.stage with
    | .mark m =>
      match Table.get s.new m.id with
      | some raw => some { s with
          new := Table.del s.new m.id
          cur := Table.put s.cur (curName m.id) raw
          stage := .idle }
      | none => some { s with stage := .idle }
    | _ => none

/-- Nothing has arrived yet; `cur` may hold files of earlier runs. -/
def start (cur : List (Bytes × Bytes)) : State :=
  ⟨[], cur, 0, ⟨0, 0, 0, 0⟩, 0, 0, [], .idle, [], [], [], []⟩

/-! ## The invariant -/

/-- The message that is taken. -/
def Stage.taken : Stage → List Message
  | .idle => []
  | .reject m | .process m | .mark m => [m]

/-- The messages that are received and in none of the other counters. -/
def Stage.uncounted : Stage → UInt64
  | .idle | .mark _ => 0
  | .reject _ | .process _ => 1

/-- The messages of the pass whose files are still to be renamed. -/
def State.pending (s : State) : List Message := s.stage.taken ++ s.queue

/-- The file has left `new` and is in `cur`, as it arrived. -/
def Moved (s : State) (name : Bytes) : Prop :=
  Table.get s.new name = none ∧
    ∃ raw, (name, raw) ∈ s.arrived ∧ Table.get s.cur (name ++ ascii ":2,S") = some raw

structure Inv (s : State) : Prop where
  valid : ∀ p ∈ s.arrived, Valid p.1
  new_arrived : ∀ name raw, Table.get s.new name = some raw → (name, raw) ∈ s.arrived
  seen_arrived : ∀ name ∈ s.seen, name ∈ Table.keys s.arrived
  seen_nodup : s.seen.Nodup
  dispatched : s.seen.Perm ((s.handed ++ s.rejected ++ s.queue).map (·.id))
  pending_nodup : (s.pending.map (·.id)).Nodup
  pending_seen : ∀ m ∈ s.pending, m.id ∈ s.seen
  pending_new : ∀ m ∈ s.pending, Table.get s.new m.id = some m.raw
  moved : ∀ name ∈ s.seen, name ∉ s.pending.map (·.id) → Moved s name
  unseen : ∀ p ∈ s.arrived, p.1 ∉ s.seen → Table.get s.new p.1 = some p.2
  balance : s.stats.received =
    s.stats.processed + s.stats.failed + s.stats.busy + s.stage.uncounted

variable {threshold : UInt64} {s t : State}

theorem inv_start (cur : List (Bytes × Bytes)) : Inv (start cur) where
  valid := by simp [start]
  new_arrived := by simp [start]
  seen_arrived := by simp [start]
  seen_nodup := List.nodup_nil
  dispatched := List.Perm.refl _
  pending_nodup := List.nodup_nil
  pending_seen := by simp [start, State.pending, Stage.taken]
  pending_new := by simp [start, State.pending, Stage.taken]
  moved := by simp [start]
  unseen := by simp [start]
  balance := rfl

theorem read_ids {new : List (Bytes × Bytes)} {names : List Bytes}
    (h : ∀ n ∈ names, Table.get new n ≠ none ∧ Valid n) : (read new names).map (·.id) = names := by
  induction names with
  | nil => rfl
  | cons n names ih =>
    rw [List.forall_mem_cons] at h
    obtain ⟨raw, hraw⟩ := Option.ne_none_iff_exists'.1 h.1.1
    rw [read, List.filterMap_cons_some (by rw [hraw]; rfl), List.map_cons, lossy_eq_self_iff.2 h.1.2]
    exact congrArg (n :: ·) (ih h.2)

theorem mem_read {new : List (Bytes × Bytes)} {names : List Bytes} (hv : ∀ n ∈ names, Valid n)
    {m : Message} (h : m ∈ read new names) : m.id ∈ names ∧ Table.get new m.id = some m.raw := by
  obtain ⟨n, hn, hm⟩ := List.mem_filterMap.1 h
  obtain ⟨raw, hraw, rfl⟩ := Option.map_eq_some_iff.1 hm
  rw [lossy_eq_self_iff.2 (hv n hn)]
  exact ⟨hn, hraw⟩

theorem inv_arrive (hs : Inv s) {name raw : Bytes} (hv : Valid name)
    (hfresh : name ∉ Table.keys s.arrived) :
    Inv { s with new := Table.put s.new name raw, arrived := (name, raw) :: s.arrived } := by
  have hne : ∀ n ∈ s.seen, name ≠ n := fun n hn he => hfresh (he ▸ hs.seen_arrived n hn)
  constructor
  case valid =>
    intro p hp
    rcases List.mem_cons.1 hp with rfl | hp
    · exact hv
    · exact hs.valid p hp
  case new_arrived =>
    intro n r h
    rcases Table.get_of_get_put h with ⟨rfl, rfl⟩ | ⟨-, h⟩
    · exact List.mem_cons_self
    · exact List.mem_cons_of_mem _ (hs.new_arrived n r h)
  case seen_arrived => exact fun n hn => List.mem_cons_of_mem _ (hs.seen_arrived n hn)
  case seen_nodup => exact hs.seen_nodup
  case dispatched => exact hs.dispatched
  case pending_nodup => exact hs.pending_nodup
  case pending_seen => exact hs.pending_seen
  case pending_new =>
    intro m hm
    rw [Table.get_put_of_ne (hne _ (hs.pending_seen m hm))]
    exact hs.pending_new m hm
  case moved =>
    intro n hn hpend
    obtain ⟨hnone, r, hr, hcur⟩ := hs.moved n hn hpend
    refine ⟨?_, r, List.mem_cons_of_mem _ hr, hcur⟩
    rw [Table.get_put_of_ne (hne n hn)]
    exact hnone
  case unseen =>
    intro p hp hseen
    rcases List.mem_cons.1 hp with rfl | hp
    · exact Table.get_put_self _ _ _
    · have hpn : name ≠ p.1 := fun he => hfresh (he ▸ List.mem_map_of_mem hp)
      rw [Table.get_put_of_ne hpn]
      exact hs.unseen p hp hseen
  case balance => exact hs.balance

/-- A listing has files that no listing before it had. -/
theorem inv_checkNew (hs : Inv s) (hstage : s.stage = .idle) (hqueue : s.queue = [])
    {names : List Bytes} (hnodup : names.Nodup) (hnames : ∀ n ∈ names, Table.get s.new n ≠ none) :
    Inv { s with total := (read s.new names).length, idx := 0, queue := read s.new names,
                 seen := s.seen ++ names } := by
  have hpending : s.pending = [] := by rw [State.pending, hstage, hqueue]; rfl
  have harrived : ∀ n ∈ names, ∃ raw, (n, raw) ∈ s.arrived := fun n hn => by
    obtain ⟨raw, hraw⟩ := Option.ne_none_iff_exists'.1 (hnames n hn)
    exact ⟨raw, hs.new_arrived n raw hraw⟩
  have hv : ∀ n ∈ names, Valid n := fun n hn => by
    obtain ⟨raw, hraw⟩ := harrived n hn
    exact hs.valid _ hraw
  have hids : (read s.new names).map (·.id) = names := read_ids fun n hn => ⟨hnames n hn, hv n hn⟩
  have hnew : ∀ n ∈ names, n ∉ s.seen := fun n hn hseen =>
    hnames n hn (hs.moved n hseen (by simp [hpending])).1
  have htaken : s.stage.taken ++ read s.new names = read s.new names := by rw [hstage]; rfl
  constructor
  case valid => exact hs.valid
  case new_arrived => exact hs.new_arrived
  case seen_arrived =>
    intro n hn
    rcases List.mem_append.1 hn with hn | hn
    · exact hs.seen_arrived n hn
    · obtain ⟨raw, hraw⟩ := harrived n hn
      exact List.mem_map_of_mem hraw
  case seen_nodup =>
    exact List.nodup_append.2 ⟨hs.seen_nodup, hnodup, fun a ha b hb he => hnew b hb (he ▸ ha)⟩
  case dispatched =>
    have hd := hs.dispatched
    rw [hqueue, List.append_nil] at hd
    rw [List.map_append, hids]
    exact hd.append_right names
  case pending_nodup =>
    rw [State.pending, htaken, hids]
    exact hnodup
  case pending_seen =>
    intro m hm
    rw [State.pending, htaken] at hm
    exact List.mem_append_right _ (mem_read hv hm).1
  case pending_new =>
    intro m hm
    rw [State.pending, htaken] at hm
    exact (mem_read hv hm).2
  case moved =>
    intro n hn hpend
    rw [State.pending, htaken, hids] at hpend
    exact hs.moved n ((List.mem_append.1 hn).resolve_right hpend) (by simp [hpending])
  case unseen => exact fun p hp hseen => hs.unseen p hp fun h => hseen (List.mem_append_left _ h)
  case balance => exact hs.balance

/-- No file changes and no message that is to be renamed: what is left to show is that the messages
are logged and counted. -/
theorem inv_same (hs : Inv s) (hnew : t.new = s.new) (hcur : t.cur = s.cur)
    (harrived : t.arrived = s.arrived) (hseen : t.seen = s.seen) (hpending : t.pending = s.pending)
    (hdispatched : s.seen.Perm ((t.handed ++ t.rejected ++ t.queue).map (·.id)))
    (hbalance : t.stats.received =
      t.stats.processed + t.stats.failed + t.stats.busy + t.stage.uncounted) : Inv t where
  valid := harrived ▸ hs.valid
  new_arrived := by
    rw [hnew, harrived]
    exact hs.new_arrived
  seen_arrived := by
    rw [hseen, harrived]
    exact hs.seen_arrived
  seen_nodup := hseen ▸ hs.seen_nodup
  dispatched := hseen ▸ hdispatched
  pending_nodup := hpending ▸ hs.pending_nodup
  pending_seen := by
    rw [hpending, hseen]
    exact hs.pending_seen
  pending_new := by
    rw [hpending, hnew]
    exact hs.pending_new
  moved := by
    rw [hseen, hpending]
    intro name hname hnot
    rw [Moved, hnew, hcur, harrived]
    exact hs.moved name hname hnot
  unseen := by
    rw [harrived, hseen, hnew]
    exact hs.unseen
  balance := hbalance

/-- A message is taken: it is received, and in one of the two logs. -/
theorem inv_take (hs : Inv s) {m : Message} {queue : List Message} (hstage : s.stage = .idle)
    (hqueue : s.queue = m :: queue) {stage : Stage} {handed rejected : List Message} {idx : ℕ}
    (hstaged : stage.taken = [m] ∧ stage.uncounted = 1)
    (hlogs : (handed ++ rejected).Perm (m :: (s.handed ++ s.rejected))) :
    Inv { s with stats := { s.stats with received := s.stats.received + 1 }, idx := idx,
                 queue := queue, stage := stage, handed := handed, rejected := rejected } := by
  have hpending : stage.taken ++ queue = s.pending := by
    rw [State.pending, hstaged.1, hstage, hqueue]
    rfl
  have hbalance : s.stats.received = s.stats.processed + s.stats.failed + s.stats.busy + 0 := by
    have hb := hs.balance
    rwa [hstage] at hb
  refine inv_same hs rfl rfl rfl rfl hpending ?_ ?_
  · refine hs.dispatched.trans (List.Perm.map _ ?_)
    rw [hqueue]
    exact List.perm_middle.trans (hlogs.append_right queue).symm
  · simp only [hbalance, hstaged.2, UInt64.add_zero]

/-- A message is counted. -/
theorem inv_count (hs : Inv s) {m : Message} (htaken : s.stage.taken = [m]) {stats : Stats}
    (hreceived : stats.received = s.stats.received)
    (hcount : stats.processed + stats.failed + stats.busy =
      s.stats.processed + s.stats.failed + s.stats.busy + s.stage.uncounted) :
    Inv { s with stats := stats, stage := .mark m } := by
  have hpending : (Stage.mark m).taken ++ s.queue = s.pending := by
    rw [State.pending, htaken]
    rfl
  refine inv_same hs rfl rfl rfl rfl hpending hs.dispatched (hreceived.trans (hs.balance.trans ?_))
  rw [← hcount]
  exact (UInt64.add_zero _).symm

/-- The file of a message is renamed. -/
theorem inv_mark (hs : Inv s) {m : Message} (hstage : s.stage = .mark m) :
    Inv { s with new := Table.del s.new m.id, cur := Table.put s.cur (curName m.id) m.raw,
                 stage := .idle } := by
  have hpending : s.pending = m :: s.queue := by
    rw [State.pending, hstage]
    rfl
  have hidle : Stage.idle.taken ++ s.queue = s.queue := rfl
  have hm : m ∈ s.pending := by simp [hpending]
  have hnew := hs.pending_new m hm
  have harrived := hs.new_arrived _ _ hnew
  have hname : curName m.id = m.id ++ ascii ":2,S" := by
    rw [curName, lossy_eq_self_iff.2 (hs.valid _ harrived)]
  have hnodup : m.id ∉ s.queue.map (·.id) ∧ (s.queue.map (·.id)).Nodup := by
    have h := hs.pending_nodup
    rw [hpending, List.map_cons] at h
    exact List.nodup_cons.1 h
  constructor
  case valid => exact hs.valid
  case new_arrived => exact fun n raw h => hs.new_arrived n raw (Table.get_of_get_del h).2
  case seen_arrived => exact hs.seen_arrived
  case seen_nodup => exact hs.seen_nodup
  case dispatched => exact hs.dispatched
  case pending_nodup =>
    rw [State.pending, hidle]
    exact hnodup.2
  case pending_seen =>
    rw [State.pending, hidle]
    exact fun x hx => hs.pending_seen x (by simp [hpending, hx])
  case pending_new =>
    rw [State.pending, hidle]
    intro x hx
    have hne : m.id ≠ x.id := fun he => hnodup.1 (he ▸ List.mem_map_of_mem hx)
    rw [Table.get_del_of_ne hne]
    exact hs.pending_new x (by simp [hpending, hx])
  case moved =>
    rw [State.pending, hidle]
    intro n hn hqueue
    by_cases hnm : m.id = n
    · subst hnm
      refine ⟨Table.get_del_self _ _, m.raw, harrived, ?_⟩
      rw [← hname]
      exact Table.get_put_self _ _ _
    · have hpend : n ∉ s.pending.map (·.id) := by
        rw [hpending, List.map_cons, List.mem_cons, not_or]
        exact ⟨Ne.symm hnm, hqueue⟩
      obtain ⟨hnone, raw, hraw, hcur⟩ := hs.moved n hn hpend
      have hne : curName m.id ≠ n ++ ascii ":2,S" := fun he =>
        hnm (List.append_cancel_right (hname.symm.trans he))
      refine ⟨?_, raw, hraw, ?_⟩
      · rw [Table.get_del_of_ne hnm]
        exact hnone
      · rw [Table.get_put_of_ne hne]
        exact hcur
  case unseen =>
    intro p hp hseen
    have hne : m.id ≠ p.1 := fun he => hseen (he ▸ hs.pending_seen m hm)
    rw [Table.get_del_of_ne hne]
    exact hs.unseen p hp hseen
  case balance =>
    have hbalance := hs.balance
    rw [hstage] at hbalance
    exact hbalance

theorem inv_step (s : State) (e : Event) (s' : State) (hs : Inv s)
    (h : step threshold s e = some s') : Inv s' := by
  cases e with
  | arrive name raw =>
    simp only [step] at h
    split_ifs at h with hen
    obtain rfl := Option.some.inj h
    exact inv_arrive hs hen.1 hen.2
  | poll average =>
    obtain rfl := Option.some.inj h
    exact inv_same hs rfl rfl rfl rfl rfl hs.dispatched hs.balance
  | checkNew names =>
    simp only [step] at h
    split_ifs at h with hen
    obtain rfl := Option.some.inj h
    exact inv_checkNew hs hen.1 hen.2.1 hen.2.2.1 hen.2.2.2
  | checkFail =>
    simp only [step] at h
    split_ifs at h
    exact Option.some.inj h ▸ hs
  | take =>
    simp only [step] at h
    split at h
    · rename_i m queue hstage hqueue
      split_ifs at h with hbusy
      · obtain rfl := Option.some.inj h
        exact inv_take hs hstage hqueue ⟨rfl, rfl⟩ List.perm_middle
      · obtain rfl := Option.some.inj h
        exact inv_take hs hstage hqueue ⟨rfl, rfl⟩ (List.Perm.refl _)
    · cases h
  | rejected =>
    simp only [step] at h
    split at h
    · rename_i m hstage
      obtain rfl := Option.some.inj h
      refine inv_count hs (by rw [hstage]; rfl) rfl ?_
      simp only [hstage, Stage.uncounted]
      exact (UInt64.add_assoc _ _ _).symm
    · cases h
  | processed ok =>
    simp only [step] at h
    split at h
    · rename_i m hstage
      obtain rfl := Option.some.inj h
      refine inv_count hs (by rw [hstage]; rfl) (by cases ok <;> rfl) ?_
      cases ok
      all_goals
        simp only [hstage, Stage.uncounted]
        grind
    · cases h
  | mark =>
    simp only [step] at h
    split at h
    · rename_i m hstage
      have hm : m ∈ s.pending := by simp [State.pending, hstage, Stage.taken]
      rw [hs.pending_new m hm] at h
      obtain rfl := Option.some.inj h
      exact inv_mark hs hstage
    · cases h

/-! ## Whole runs -/

/-- Over any number of passes: no file is listed twice and none is handed to processing twice; a
file that has arrived is still in `new` until a pass lists it; and after a pass every listed file
has been dispatched once and is in `cur` as it arrived, and the counters balance. -/
theorem dispatch_once {cur : List (Bytes × Bytes)} {es : List Event}
    (h : run (step threshold) (start cur) es = some t) :
    t.seen.Nodup ∧ (t.handed.map (·.id)).Nodup ∧
    (∀ p ∈ t.arrived, p.1 ∉ t.seen → Table.get t.new p.1 = some p.2) ∧
    (t.stage = .idle → t.queue = [] →
      t.seen.Perm ((t.handed ++ t.rejected).map (·.id)) ∧ (∀ name ∈ t.seen, Moved t name) ∧
      t.stats.received = t.stats.processed + t.stats.failed + t.stats.busy) := by
  have ht : Inv t := run_preserves inv_step (inv_start cur) h
  have hnodup := ht.dispatched.nodup_iff.1 ht.seen_nodup
  refine ⟨ht.seen_nodup, ?_, ht.unseen, fun hstage hqueue => ⟨?_, fun name hname => ?_, ?_⟩⟩
  · rw [List.append_assoc, List.map_append] at hnodup
    exact (List.nodup_append.1 hnodup).1
  · have hd := ht.dispatched
    rwa [hqueue, List.append_nil] at hd
  · exact ht.moved name hname (by simp [State.pending, hstage, hqueue, Stage.taken])
  · have hbalance := ht.balance
    rw [hstage] at hbalance
    exact hbalance.trans (UInt64.add_zero _)

/-- Two passes: of three files one is rejected as busy and one fails, and another comes in the
meantime. -/
theorem dispatch_once_four : ∃ t,
    run (step 100) (start []) [.poll 60, .arrive (ascii "a") (ascii "x"), .arrive (ascii "b") (ascii "y"),
      .arrive (ascii "c") (ascii "z"), .checkNew [ascii "b", ascii "a", ascii "c"], .take, .rejected,
      .mark, .take, .arrive (ascii "d") (ascii "w"), .processed false, .mark, .take, .processed true,
      .mark, .checkFail, .checkNew [ascii "d"], .take, .processed true, .mark] = some t ∧
    t.stats = ⟨4, 2, 1, 1⟩ ∧ t.seen.Nodup ∧ (t.handed.map (·.id)).Nodup ∧
    ∀ name ∈ t.seen, Moved t name := by
  have hr : (run (step 100) (start []) [.poll 60, .arrive (ascii "a") (ascii "x"),
      .arrive (ascii "b") (ascii "y"), .arrive (ascii "c") (ascii "z"),
      .checkNew [ascii "b", ascii "a", ascii "c"], .take, .rejected, .mark, .take,
      .arrive (ascii "d") (ascii "w"), .processed false, .mark, .take, .processed true, .mark, .checkFail,
      .checkNew [ascii "d"], .take, .processed true, .mark]).map (fun t => (t.stats, t.stage, t.queue)) =
      some (⟨4, 2, 1, 1⟩, .idle, []) := by decide +kernel
  obtain ⟨t, ht, hx⟩ := Option.map_eq_some_iff.1 hr
  simp only [Prod.mk.injEq] at hx
  obtain ⟨hstats, hstage, hqueue⟩ := hx
  obtain ⟨hseen, hhanded, -, hdone⟩ := dispatch_once ht
  exact ⟨t, ht, hstats, hseen, hhanded, (hdone hstage hqueue).2.1⟩

end Antie.Dispatch
