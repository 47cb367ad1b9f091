import AxiomCarriers.Antie.Custody
import AxiomCarriers.Lib.Run
import AxiomCarriers.Tot.Stamp
import Mathlib.Logic.Function.Basic

/-!
# The session directories

TOT and ANTIE share the custody outbox.  TOT creates the directory of a session when it opens
(`SessionDir::create`) and removes it when it ends (`SessionDir::drop`); ANTIE's deposits create it
again on demand, under whatever id a mail carries.  TOT's removal unlinks the entries it has found
one by one and then the directory, and it gives up when the directory is not empty then.

`dirs_live` shows that every directory belongs to a live session as long as no deposit touches the
directory of a session that is not open.
-/

namespace Tot

open Antie.Custody Runs

/-- A live session is open, or ends: its directory is being removed, and these entries of `tmp/`,
unless it is gone, and of the directory itself are still to unlink. -/
inductive Session
  | opened
  | closing (tmp : Option (List Name)) (files : List Name)
  deriving DecidableEq

def ending : Option Session → Bool
  | some (.closing _ _) => true
  | _ => false

/-- The outbox, the sessions of TOT, and the deposits of ANTIE. -/
structure Outbox where
  dirs : SessionId → Option (Dir Bytes)
  sessions : SessionId → Option Session
  jobs : List (SessionId × Job Bytes)

inductive OutboxEvent
  /-- A session opens under a fresh id. -/
  | open (id : SessionId)
  /-- A session ends: by the end of its stream, an error or a timeout. -/
  | close (id : SessionId)
  /-- The next step of the removal of its directory. -/
  | remove (id : SessionId)
  /-- ANTIE has computed the reply to a mail that carried the id. -/
  | reply (id : SessionId) (requestId bytes : Bytes)
  /-- The next step of a deposit. -/
  | deposit (k : ℕ)
  /-- The session has sent a reply and removes its file. -/
  | pumped (id : SessionId) (name : Name)
  deriving DecidableEq

/-- `sweep_stale_sessions`: every directory in the outbox is removed. -/
def sweepStaleSessions (o : Outbox) : Outbox := { o with dirs := fun _ => none }

/-- TOT has started: no session is live, whatever was in the outbox and is under way at ANTIE. -/
def started (dirs : SessionId → Option (Dir Bytes)) (jobs : List (SessionId × Job Bytes)) : Outbox :=
  sweepStaleSessions ⟨dirs, fun _ => none, jobs⟩

def Outbox.setDir (o : Outbox) (id : SessionId) (d : Option (Dir Bytes)) : Outbox :=
  { o with dirs := Function.update o.dirs id d }

def Outbox.setSession (o : Outbox) (id : SessionId) (s : Option Session) : Outbox :=
  { o with sessions := Function.update o.sessions id s }

/-- A step of `remove_dir_all` on the directory: an entry of `tmp/`, `tmp/` itself, an entry of the
directory, the directory.  A directory that is not empty ends the removal with an error. -/
def Outbox.removeStep (o : Outbox) (id : SessionId) (d : Dir Bytes) :
    Option (List Name) → List Name → Outbox
  | some (name :: tmp), files =>
    (o.setDir id (some { d with tmp := d.tmp.map (Table.del · name) })).setSession id
      (some (.closing (some tmp) files))
  | some [], files =>
    if d.tmp = some [] then
      (o.setDir id (some { d with tmp := none })).setSession id (some (.closing none files))
    else o.setSession id none
  | none, name :: files =>
    (o.setDir id (some { d with files := Table.del d.files name })).setSession id
      (some (.closing none files))
  | none, [] =>
    if d.tmp = none ∧ d.files = [] then (o.setDir id none).setSession id none
    else o.setSession id none

/-- One step of TOT or of ANTIE. -/
def outboxStep (o : Outbox) : OutboxEvent → Option Outbox
  | .open id =>
    if o.sessions id = none then
      some ((o.setDir id (some ((o.dirs id).getD (Dir.empty Bytes)))).setSession id (some .opened))
    else none
  | .close id =>
    if o.sessions id = some .opened then
      match o.dirs id with
      | some d => some (o.setSession id
          (some (.closing (d.tmp.map Table.keys) (Table.keys d.files))))
      | none => some (o.setSession id none)
    else none
  | .remove id =>
    match o.sessions id, o.dirs id with
    | some (.closing tmp files), some d => some (o.removeStep id d tmp files)
    | some (.closing _ _), none => some (o.setSession id none)
    | _, _ => none
  | .reply id requestId bytes =>
    match deposit (replyName requestId) bytes with
    | some j => some { o with jobs := o.jobs ++ [(id, j)] }
    | none => some o
  | .deposit k =>
    match o.jobs[k]? with
    | some (id, j) =>
      match j.advance (o.dirs id) with
      | some (d, some j) => some { o.setDir id (some d) with jobs := o.jobs.set k (id, j) }
      | some (d, none) => some { o.setDir id (some d) with jobs := o.jobs.eraseIdx k }
      | none => some { o with jobs := o.jobs.eraseIdx k }
    | none => none
  | .pumped id name =>
    match o.sessions id, o.dirs id with
    | some .opened, some d => some (o.setDir id (some { d with files := Table.del d.files name }))
    | _, _ => none

/-- Every directory in the outbox belongs to a live session. -/
def DirsLive (o : Outbox) : Prop := ∀ id, o.dirs id ≠ none → o.sessions id ≠ none

/-- A deposit creates the directory of an open session only, and adds no file to the directory of a
session that ends. -/
def DepositsInOpen (o : Outbox) : OutboxEvent → Prop
  | .deposit k => ∀ p ∈ o.jobs[k]?,
      if p.2.stage = .mkdir then o.sessions p.1 = some .opened else ¬ ending (o.sessions p.1)
  | _ => True

instance (o : Outbox) (e : OutboxEvent) : Decidable (DepositsInOpen o e) := by
  unfold DepositsInOpen
  split <;> infer_instance

/-! ## The invariant -/

/-- Every entry of the directory is still to unlink. -/
def Covered (d : Dir Bytes) (tmp : Option (List Name)) (files : List Name) : Prop :=
  (∀ n b, Table.get d.files n = some b → n ∈ files) ∧
    match tmp with
    | some names => ∃ t, d.tmp = some t ∧ ∀ n b, Table.get t n = some b → n ∈ names
    | none => d.tmp = none

/-- The directory of a session that is not live does not exist, and that of a session that ends has
no entry but those still to unlink. -/
def DirInv : Option Session → Option (Dir Bytes) → Prop
  | none, d => d = none
  | some .opened, _ => True
  | some (.closing tmp files), d => ∀ d', d = some d' → Covered d' tmp files

def OutboxInv (o : Outbox) : Prop := ∀ id, DirInv (o.sessions id) (o.dirs id)

theorem OutboxInv.dirsLive {o : Outbox} (h : OutboxInv o) : DirsLive o := by
  intro id hd hs
  have := h id
  rw [hs] at this
  exact hd this

theorem outboxInv_started (dirs : SessionId → Option (Dir Bytes))
    (jobs : List (SessionId × Job Bytes)) : OutboxInv (started dirs jobs) := fun _ => rfl

/-- A change at one id keeps the invariant when it holds there afterwards. -/
theorem OutboxInv.set {o : Outbox} (h : OutboxInv o) {id : SessionId} {s : Option Session}
    {d : Option (Dir Bytes)} (hid : DirInv s d) : OutboxInv ((o.setDir id d).setSession id s) := by
  intro id'
  by_cases he : id' = id
  · subst he
    simpa [Outbox.setDir, Outbox.setSession] using hid
  · simpa [Outbox.setDir, Outbox.setSession, Function.update_of_ne he] using h id'

theorem OutboxInv.setDir {o : Outbox} (h : OutboxInv o) {id : SessionId} {d : Option (Dir Bytes)}
    (hid : DirInv (o.sessions id) d) : OutboxInv (o.setDir id d) := by
  have : OutboxInv ((o.setDir id d).setSession id (o.sessions id)) := h.set hid
  rwa [Outbox.setSession, Outbox.setDir, Function.update_eq_self] at this

theorem OutboxInv.setSession {o : Outbox} (h : OutboxInv o) {id : SessionId} {s : Option Session}
    (hid : DirInv s (o.dirs id)) : OutboxInv (o.setSession id s) := by
  have : OutboxInv ((o.setDir id (o.dirs id)).setSession id s) := h.set hid
  rwa [Outbox.setDir, Function.update_eq_self] at this

theorem OutboxInv.removeStep {o : Outbox} (h : OutboxInv o) {id : SessionId} {d : Dir Bytes}
    {tmp : Option (List Name)} {files : List Name} (hc : Covered d tmp files) :
    OutboxInv (o.removeStep id d tmp files) := by
  obtain ⟨hfiles, htmp⟩ := hc
  cases tmp with
  | some names =>
    obtain ⟨t, ht, hnames⟩ := htmp
    cases names with
    | cons name names =>
      refine h.set fun d' hd' => ?_
      obtain rfl := Option.some.inj hd'
      refine ⟨hfiles, Table.del t name, by rw [ht]; rfl, fun n b hn => ?_⟩
      obtain ⟨hne, hn⟩ := Table.get_of_get_del hn
      exact (List.mem_cons.1 (hnames n b hn)).resolve_left (Ne.symm hne)
    | nil =>
      -- nothing was put into `tmp/` since, so it is empty
      obtain rfl : t = [] := Table.eq_nil_of_get fun n b hn => by simpa using hnames n b hn
      rw [Outbox.removeStep, if_pos ht]
      refine h.set fun d' hd' => ?_
      obtain rfl := Option.some.inj hd'
      exact ⟨hfiles, rfl⟩
  | none =>
    cases files with
    | cons name files =>
      refine h.set fun d' hd' => ?_
      obtain rfl := Option.some.inj hd'
      refine ⟨fun n b hn => ?_, htmp⟩
      obtain ⟨hne, hn⟩ := Table.get_of_get_del hn
      exact (List.mem_cons.1 (hfiles n b hn)).resolve_left (Ne.symm hne)
    | nil =>
      have hnil : d.files = [] := Table.eq_nil_of_get fun n b hn => by simpa using hfiles n b hn
      rw [Outbox.removeStep, if_pos ⟨htmp, hnil⟩]
      exact h.set rfl

/-- A deposit's step on an open session's directory, or one that creates nothing. -/
theorem advance_of_none {j : Job Bytes} (hj : j.stage ≠ .mkdir) : j.advance none = none := by
  obtain ⟨name, content, stage⟩ := j
  cases stage with
  | mkdir => exact absurd rfl hj
  | write => rfl
  | rename => rfl

/-- A deposit that takes a step under the condition belongs to an open session. -/
theorem opened_of_advance {o : Outbox} (hi : OutboxInv o) {id : SessionId} {j : Job Bytes}
    {r : Dir Bytes × Option (Job Bytes)} (ha : j.advance (o.dirs id) = some r)
    (hjob : if j.stage = .mkdir then o.sessions id = some .opened else ¬ ending (o.sessions id)) :
    o.sessions id = some .opened := by
  by_cases hm : j.stage = .mkdir
  · rwa [if_pos hm] at hjob
  · rw [if_neg hm] at hjob
    have hid := hi id
    cases hs : o.sessions id with
    | none =>
      rw [hs] at hid
      simp [show o.dirs id = none from hid, advance_of_none hm] at ha
    | some s =>
      cases s with
      | opened => rfl
      | closing tmp files => simp [hs, ending] at hjob

theorem outboxInv_step (o : Outbox) (e : OutboxEvent) (o' : Outbox) (hi : OutboxInv o)
    (hC : DepositsInOpen o e) (h : outboxStep o e = some o') : OutboxInv o' := by
  cases e with
  | «open» id =>
    simp only [outboxStep] at h
    split_ifs at h
    obtain rfl := Option.some.inj h
    exact hi.set trivial
  | close id =>
    simp only [outboxStep] at h
    split_ifs at h
    cases hd : o.dirs id with
    | none =>
      simp only [hd] at h
      obtain rfl := Option.some.inj h
      exact hi.setSession hd
    | some d =>
      simp only [hd] at h
      obtain rfl := Option.some.inj h
      refine hi.setSession fun d' hd' => ?_
      obtain rfl := Option.some.inj (hd.symm.trans hd')
      refine ⟨fun n b hn => Table.mem_keys_of_get hn, ?_⟩
      cases ht : d.tmp with
      | none => rfl
      | some t => exact ⟨t, rfl, fun n b hn => Table.mem_keys_of_get hn⟩
  | remove id =>
    have hid := hi id
    cases hs : o.sessions id with
    | none => simp [outboxStep, hs] at h
    | some s =>
      rw [hs] at hid
      cases s with
      | opened => simp [outboxStep, hs] at h
      | closing tmp files =>
        cases hd : o.dirs id with
        | none =>
          simp only [outboxStep, hs, hd] at h
          obtain rfl := Option.some.inj h
          exact hi.setSession hd
        | some d =>
          simp only [outboxStep, hs, hd] at h
          obtain rfl := Option.some.inj h
          exact hi.removeStep (hid d hd)
  | reply id requestId bytes =>
    simp only [outboxStep] at h
    split at h <;> obtain rfl := Option.some.inj h <;> exact hi
  | deposit k =>
    cases hj : o.jobs[k]? with
    | none => simp [outboxStep, hj] at h
    | some p =>
      obtain ⟨id, j⟩ := p
      have hjob := hC (id, j) hj
      simp only [outboxStep, hj] at h
      cases ha : j.advance (o.dirs id) with
      | none =>
        simp only [ha] at h
        obtain rfl := Option.some.inj h
        exact hi
      | some r =>
        obtain ⟨d, j'⟩ := r
        -- the directory of an open session may be anything
        have hinv : OutboxInv (o.setDir id (some d)) := by
          apply hi.setDir
          rw [opened_of_advance hi ha hjob]
          trivial
        cases j' <;> simp only [ha] at h <;> obtain rfl := Option.some.inj h <;> exact hinv
  | pumped id name =>
    cases hs : o.sessions id with
    | none => simp [outboxStep, hs] at h
    | some s =>
      cases s with
      | closing tmp files => simp [outboxStep, hs] at h
      | opened =>
        cases hd : o.dirs id with
        | none => simp [outboxStep, hs, hd] at h
        | some d =>
          simp only [outboxStep, hs, hd] at h
          obtain rfl := Option.some.inj h
          exact hi.setDir (by rw [hs]; trivial)

/-- After the sweep at the start of TOT every directory in the outbox belongs to a live session, in
every run in which deposits touch the directories of open sessions only. -/
theorem dirs_live {dirs : SessionId → Option (Dir Bytes)} {jobs : List (SessionId × Job Bytes)}
    {es : List OutboxEvent} {o : Outbox}
    (hC : Along outboxStep DepositsInOpen (started dirs jobs) es)
    (h : run outboxStep (started dirs jobs) es = some o) : DirsLive o :=
  (run_invariant outboxInv_step (outboxInv_started dirs jobs) hC h).dirsLive

/-- A session whose one reply is deposited, sent and removed before it ends. -/
theorem dirs_live_one_reply :
    ∃ o, run outboxStep (started (fun _ => none) []) [.open zeroId, .reply zeroId [114] [1],
      .deposit 0, .deposit 0, .deposit 0, .pumped zeroId (replyName [114]), .close zeroId,
      .remove zeroId, .remove zeroId] = some o ∧ DirsLive o := by
  have hr : (run outboxStep (started (fun _ => none) []) [.open zeroId, .reply zeroId [114] [1],
      .deposit 0, .deposit 0, .deposit 0, .pumped zeroId (replyName [114]), .close zeroId,
      .remove zeroId, .remove zeroId]).isSome := by decide +kernel
  obtain ⟨o, ho⟩ := Option.isSome_iff_exists.1 hr
  exact ⟨o, ho, dirs_live (by decide +kernel) ho⟩

/-- A reply deposited after its session has ended creates the directory again, and nobody removes
it. -/
theorem dirs_leak_after_close :
    ∃ o, run outboxStep (started (fun _ => none) []) [.open zeroId, .reply zeroId [114] [1],
      .close zeroId, .remove zeroId, .deposit 0, .deposit 0, .deposit 0] = some o ∧
      ¬ DirsLive o := by
  have hr : (run outboxStep (started (fun _ => none) []) [.open zeroId, .reply zeroId [114] [1],
      .close zeroId, .remove zeroId, .deposit 0, .deposit 0, .deposit 0]).map
      (fun o => (o.dirs zeroId, o.sessions zeroId)) =
      some (some ⟨some [], [(replyName [114], [1])]⟩, none) := by decide +kernel
  obtain ⟨o, ho, he⟩ := Option.map_eq_some_iff.1 hr
  obtain ⟨hd, hs⟩ := Prod.mk.inj he
  exact ⟨o, ho, fun h => h zeroId (by simp [hd]) hs⟩

end Tot
