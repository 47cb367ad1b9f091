import AxiomCarriers.Tot.Server
import Mathlib.Data.List.Nodup

/-!
# What gets into the inbox of TOT

A connection admits the messages that are within the cap and its rate, and hands one at a time to
the inbox (`Flow`).  The file is written under a name that no other connection has (`Files`), so
that the rename moves the whole of it and puts it over no other.

`inbox_delivers` says what is in the inbox in every run: whole messages, each once, those of a
connection in order.
-/

namespace Tot.Server

open Bytes Text Runs
open Tunnel (Message)

/-! ## What a connection has admitted -/

def State.admitted (s : State) (k : ℕ) : List Entry := s.log.filter (·.conn = k)

def State.publishedBy (s : State) (k : ℕ) : List Entry :=
  (s.published.map Prod.snd).filter (·.conn = k)

def Stage.name : Stage → Option Name
  | .begin => none
  | .create name | .write name _ | .rename name | .sync name => some name

def Stage.unpublished : Stage → Bool
  | .sync _ => false
  | _ => true

/-- What a connection has admitted and published, and what it has received, at each point of its
task: what it writes is the last that it has admitted, and a failure may have refused one message
and published one fewer. -/
def Flow (c : Setup) (conn : Conn) (admitted published : List Entry) : Prop :=
  match conn.task with
  | .idle | .head | .handshake | .tunnel _ =>
    admitted = [] ∧ published = [] ∧ conn.received = []
  | .frame len =>
    0 < len ∧ len ≤ c.cfg.maxMessageBytes ∧ admitted = [] ∧ published = [] ∧ conn.received = []
  | .waiting o =>
    o ≠ .tcp ∧ published = admitted ∧ admitted.map Entry.sent = conn.received ∧
      ∀ x ∈ admitted, x.origin = o
  | .delivering e stage =>
    admitted = published ++ (if stage.unpublished then [e] else []) ∧ e ∈ admitted ∧
      admitted.map Entry.sent = conn.received ∧ ∀ x ∈ admitted, x.origin = e.origin
  | .ended (.ok _) =>
    published = admitted ∧ admitted.map Entry.sent = conn.received ∧
      ∃ o, ∀ x ∈ admitted, x.origin = o
  | .ended (.error _) =>
    published <+: admitted ∧ admitted.length ≤ published.length + 1 ∧
      admitted.map Entry.sent <+: conn.received ∧ conn.received.length ≤ admitted.length + 1 ∧
      ∃ o, ∀ x ∈ admitted, x.origin = o

/-- An entry is what its leg makes of what the client has sent, within the cap. -/
def Entry.Valid (c : Setup) (e : Entry) : Prop :=
  e.sent.length ≤ c.cfg.maxMessageBytes ∧ e.origin.content e.sent = .ok e.bytes ∧
    (e.origin = .tcp → 0 < e.sent.length)

/-- The names, the files of `tmp/`, and those that have got into `new/`: `inbox` is what the process
has found there. -/
structure Files (c : Setup) (inbox : Inbox) (s : State) : Prop where
  valid : ∀ e ∈ s.log, e.Valid c
  names : ∀ x ∈ s.issued, ∃ secs nanos seq, seq < s.seq ∧ x.1 = uniqueName secs nanos seq c.pid
  distinct : (s.issued.map Prod.fst).Nodup
  logged : ∀ x ∈ s.issued, x.2 ∈ s.log
  held : ∀ k e stage, (s.conns k).task = .delivering e stage →
    e.conn = k ∧ e ∈ s.log ∧ ∀ n ∈ stage.name, (n, e) ∈ s.issued
  fresh : ∀ k e stage, (s.conns k).task = .delivering e stage → stage.unpublished →
    ∀ n ∈ stage.name, n ∉ s.published.map Prod.fst
  issued : ∀ x ∈ s.published, x ∈ s.issued
  once : (s.published.map Prod.fst).Nodup
  writing : ∀ k e n m, (s.conns k).task = .delivering e (.write n m) →
    Table.get s.inbox.tmp n = some (e.bytes.take m)
  synced : ∀ k e n, (s.conns k).task = .delivering e (.rename n) →
    Table.get s.inbox.tmp n = some e.bytes
  keys : (Table.keys s.inbox.new).Nodup
  there : ∀ x ∈ s.published, (x.1, x.2.bytes) ∈ s.inbox.new ++ s.taken
  single : ∀ x ∈ s.published, x.1 ∉ Table.keys inbox.new →
    (Table.keys s.inbox.new ++ s.taken.map Prod.fst).count x.1 = 1
  known : ∀ p ∈ s.inbox.new ++ s.taken,
    p ∈ inbox.new ∨ ∃ x ∈ s.published, p = (x.1, x.2.bytes)

structure Inv (c : Setup) (inbox : Inbox) (s : State) : Prop where
  flow : ∀ k, Flow c (s.conns k) (s.admitted k) (s.publishedBy k)
  files : Files c inbox s

variable {c : Setup} {inbox : Inbox} {s t : State} {e : Event} {k : ℕ} {conn : Conn}
  {acc pub : List Entry}

/-- Where a connection is not writing. -/
def Task.Quiet : Task → Prop
  | .delivering _ _ => False
  | _ => True

theorem inv_started (hkeys : (Table.keys inbox.new).Nodup) : Inv c inbox (started c inbox) where
  flow k := ⟨rfl, rfl, rfl⟩
  files := {
    valid := fun e he => absurd he List.not_mem_nil
    names := fun x hx => absurd hx List.not_mem_nil
    distinct := List.nodup_nil
    logged := fun x hx => absurd hx List.not_mem_nil
    held := fun k e stage h => by cases h
    fresh := fun k e stage h => by cases h
    issued := fun x hx => absurd hx List.not_mem_nil
    once := List.nodup_nil
    writing := fun k e n m h => by cases h
    synced := fun k e n h => by cases h
    keys := hkeys
    there := fun x hx => absurd hx List.not_mem_nil
    single := fun x hx => absurd hx List.not_mem_nil
    known := fun p hp => Or.inl (by simpa [started] using hp) }

/-- The parts of a quiet connection that has not ended. -/
theorem Flow.quiet (h : Flow c conn acc pub) (hq : conn.task.Quiet)
    (hopen : ∀ r, conn.task ≠ .ended r) : pub = acc ∧ acc.map Entry.sent = conn.received ∧
      ((∀ o, conn.task ≠ .waiting o) → acc = [] ∧ conn.received = []) ∧
      ∃ o, (∀ o', conn.task = .waiting o' → o = o') ∧ ∀ x ∈ acc, x.origin = o := by
  unfold Flow at h
  cases htask : conn.task with
  | idle | head | handshake | tunnel node =>
    simp only [htask] at h
    obtain ⟨rfl, rfl, hr⟩ := h
    exact ⟨rfl, hr.symm, fun _ => ⟨rfl, hr⟩, .tcp, fun _ ho => Task.noConfusion ho,
      fun x hx => absurd hx List.not_mem_nil⟩
  | frame len =>
    simp only [htask] at h
    obtain ⟨-, -, rfl, rfl, hr⟩ := h
    exact ⟨rfl, hr.symm, fun _ => ⟨rfl, hr⟩, .tcp, fun _ ho => Task.noConfusion ho,
      fun x hx => absurd hx List.not_mem_nil⟩
  | waiting o =>
    simp only [htask] at h
    exact ⟨h.2.1, h.2.2.1, fun hno => absurd rfl (hno o), o, fun _ ho => Task.waiting.inj ho,
      h.2.2.2⟩
  | delivering e stage => rw [htask] at hq; exact hq.elim
  | ended r => exact absurd htask (hopen r)

/-- A quiet connection fails, with a message that it has received and refused or without. -/
theorem Flow.fail (h : Flow c conn acc pub) (hq : conn.task.Quiet)
    (hopen : ∀ r, conn.task ≠ .ended r) {conn' : Conn} {text : String}
    (htask : conn'.task = .ended (.error text)) {refused : List Bytes}
    (hreceived : conn'.received = conn.received ++ refused) (hone : refused.length ≤ 1) :
    Flow c conn' acc pub := by
  obtain ⟨rfl, hsent, -, o, -, ho⟩ := h.quiet hq hopen
  have hlen : pub.length = conn.received.length := by rw [← hsent, List.length_map]
  simp only [Flow, htask, hreceived, List.length_append]
  refine ⟨List.prefix_rfl, by omega, hsent ▸ List.prefix_append _ _, by omega, o, ho⟩

/-- The end of its stream. -/
theorem Flow.finish (h : Flow c conn acc pub) (hq : conn.task.Quiet)
    (hopen : ∀ r, conn.task ≠ .ended r) {conn' : Conn} (htask : conn'.task = .ended (.ok ()))
    (hreceived : conn'.received = conn.received) : Flow c conn' acc pub := by
  obtain ⟨rfl, hsent, -, o, -, ho⟩ := h.quiet hq hopen
  simp only [Flow, htask, hreceived]
  exact ⟨trivial, hsent, o, ho⟩

/-! ## Steps that touch no file -/

/-- A step between quiet points of a connection. -/
theorem Inv.quiet (h : Inv c inbox s) (hq : (s.conns k).task.Quiet) {conn : Conn}
    (hq' : conn.task.Quiet) (hflow : Flow c conn (s.admitted k) (s.publishedBy k))
    (dialled : List NablaNode) : Inv c inbox { s.setConn k conn with dialled } := by
  have hconn : ∀ j e stage, (Function.update s.conns k conn j).task = .delivering e stage →
      (s.conns j).task = .delivering e stage := by
    intro j e stage hj
    rcases eq_or_ne j k with rfl | hne
    · rw [Function.update_self] at hj
      rw [hj] at hq'
      exact hq'.elim
    · rwa [Function.update_of_ne hne] at hj
  refine ⟨fun j => ?_, ?_⟩
  · show Flow c (Function.update s.conns k conn j) (s.admitted j) (s.publishedBy j)
    rcases eq_or_ne j k with rfl | hne
    · rwa [Function.update_self]
    · rw [Function.update_of_ne hne]
      exact h.flow j
  · exact { h.files with
      held := fun j e stage hj => h.files.held j e stage (hconn j e stage hj)
      fresh := fun j e stage hj => h.files.fresh j e stage (hconn j e stage hj)
      writing := fun j e n m hj => h.files.writing j e n m (hconn j e _ hj)
      synced := fun j e n hj => h.files.synced j e n (hconn j e _ hj) }

/-- The quiet step, written with the list of the nodes that were dialled. -/
theorem Inv.setConn (h : Inv c inbox s) (hq : (s.conns k).task.Quiet) (hq' : conn.task.Quiet)
    (hflow : Flow c conn (s.admitted k) (s.publishedBy k)) : Inv c inbox (s.setConn k conn) :=
  h.quiet hq hq' hflow s.dialled

theorem Inv.failTask (h : Inv c inbox s) (hq : (s.conns k).task.Quiet)
    (hopen : ∀ r, (s.conns k).task ≠ .ended r) (text : String) :
    Inv c inbox (s.setTask k (.ended (.error text))) :=
  h.setConn hq trivial ((h.flow k).fail hq hopen rfl (List.append_nil _).symm (Nat.zero_le 1))

theorem Inv.finishTask (h : Inv c inbox s) (hq : (s.conns k).task.Quiet)
    (hopen : ∀ r, (s.conns k).task ≠ .ended r) : Inv c inbox (s.setTask k (.ended (.ok ()))) :=
  h.setConn hq trivial ((h.flow k).finish hq hopen rfl rfl)

theorem Inv.dial (h : Inv c inbox s) (htask : (s.conns k).task = .handshake) (name : String)
    (nodes : List NablaNode) (idx : ℕ) (set : String) :
    Inv c inbox (dial s k name nodes idx set) := by
  have hq : (s.conns k).task.Quiet := by rw [htask]; trivial
  have hopen : ∀ r, (s.conns k).task ≠ .ended r := fun r hr => by rw [htask] at hr; cases hr
  have hflow := h.flow k
  rw [Flow, htask] at hflow
  unfold Server.dial
  cases nodes[idx]? with
  | none => exact h.failTask hq hopen _
  | some node =>
    have hq' : ({ s.conns k with task := .tunnel node } : Conn).task.Quiet := trivial
    exact h.quiet hq hq' hflow _

theorem Inv.onHead (h : Inv c inbox s) (htask : (s.conns k).task = .head) (bytes : Bytes) :
    Inv c inbox (onHead c s k bytes) := by
  have hq : (s.conns k).task.Quiet := by rw [htask]; trivial
  have hopen : ∀ r, (s.conns k).task ≠ .ended r := fun r hr => by rw [htask] at hr; cases hr
  have hflow := h.flow k
  rw [Flow, htask] at hflow
  unfold Server.onHead
  refine iteInduction (fun _ => h.setConn hq trivial hflow) fun _ => ?_
  refine iteInduction (fun _ => h.failTask hq hopen _) fun hpos => ?_
  refine iteInduction (fun _ => h.failTask hq hopen _) fun hcap => ?_
  exact h.setConn hq trivial ⟨Nat.pos_of_ne_zero hpos, Nat.le_of_not_lt hcap, hflow⟩

theorem Inv.onUpgraded (h : Inv c inbox s) (htask : (s.conns k).task = .handshake)
    (path random : Bytes) (now : ℕ) (dir : Bool) :
    Inv c inbox (onUpgraded c s k path random now dir) := by
  have hq : (s.conns k).task.Quiet := by rw [htask]; trivial
  have hopen : ∀ r, (s.conns k).task ≠ .ended r := fun r hr => by rw [htask] at hr; cases hr
  have hflow := h.flow k
  rw [Flow, htask] at hflow
  obtain ⟨hacc, hpub, hreceived⟩ := hflow
  have hwaiting : ∀ o, o ≠ .tcp → Inv c inbox (s.setConn k { s.conns k with
      task := .waiting o
      created := now
      limiter := .new c.intakeMaxMsgsPerSec now
      calls := [] }) := by
    intro o ho
    refine h.setConn hq trivial ⟨ho, hpub.trans hacc.symm, ?_, ?_⟩
    · show (s.admitted k).map Entry.sent = (s.conns k).received
      rw [hacc, hreceived]
      rfl
    · rw [hacc]
      exact fun x hx => absurd hx List.not_mem_nil
  unfold Server.onUpgraded
  cases hroute : Route.parse c.fatmama.isSome path with
  | none => exact h.failTask hq hopen _
  | some route =>
    cases route with
    | intake => exact hwaiting .intake Origin.noConfusion
    | session =>
      by_cases hrandom : random.length = 32
      · simp only [hrandom, dite_true]
        refine iteInduction (fun _ => h.failTask hq hopen _) fun _ => ?_
        exact iteInduction (fun _ => h.failTask hq hopen _)
          fun _ => hwaiting _ Origin.noConfusion
      · simp only [hrandom, dite_false]
        exact h.failTask hq hopen _
    | nabla idx => exact h.dial htask _ _ _ _
    | fatmama idx => exact h.dial htask _ _ _ _

/-! ## Messages -/

theorem admitted_concat (s : State) (e : Entry) (j : ℕ) :
    (s.log ++ [e]).filter (·.conn = j) = s.admitted j ++ if e.conn = j then [e] else [] := by
  by_cases h : e.conn = j <;> simp [State.admitted, List.filter_append, h]

/-- A quiet connection hands an entry to the inbox. -/
theorem Inv.enter (h : Inv c inbox s) (hq : (s.conns k).task.Quiet)
    (hopen : ∀ r, (s.conns k).task ≠ .ended r) {x : Entry} (hconn : x.conn = k) (hx : x.Valid c)
    (horigin : ∀ o, (s.conns k).task = .waiting o → x.origin = o)
    (hreceived : conn.received = (s.conns k).received ++ [x.sent]) :
    Inv c inbox (s.enter k conn x) := by
  obtain ⟨hpub, hsent, hnone, o, ho, horigins⟩ := (h.flow k).quiet hq hopen
  have hsame : ∀ y ∈ s.admitted k, y.origin = x.origin := by
    intro y hy
    by_cases hw : ∃ o', (s.conns k).task = .waiting o'
    · obtain ⟨o', hw⟩ := hw
      rw [horigins y hy, ho o' hw, horigin o' hw]
    · rw [(hnone fun o' ho' => hw ⟨o', ho'⟩).1] at hy
      exact absurd hy List.not_mem_nil
  have htask : ∀ j y stage, (Function.update s.conns k
      { conn with task := .delivering x .begin } j).task = .delivering y stage →
      (j = k ∧ y = x ∧ stage = .begin) ∨ (s.conns j).task = .delivering y stage := by
    intro j y stage hj
    rcases eq_or_ne j k with rfl | hne
    · rw [Function.update_self] at hj
      obtain ⟨rfl, rfl⟩ := Task.delivering.inj hj
      exact Or.inl ⟨rfl, rfl, rfl⟩
    · rw [Function.update_of_ne hne] at hj
      exact Or.inr hj
  refine ⟨fun j => ?_, ?_⟩
  · show Flow c (Function.update s.conns k { conn with task := .delivering x .begin } j)
      ((s.log ++ [x]).filter (·.conn = j)) (s.publishedBy j)
    rw [admitted_concat]
    rcases eq_or_ne j k with rfl | hne
    · rw [Function.update_self, if_pos hconn]
      refine ⟨by rw [hpub]; rfl, by simp, ?_, fun y hy => ?_⟩
      · show (s.admitted j ++ [x]).map Entry.sent = conn.received
        rw [List.map_append, hsent, hreceived]
        rfl
      · rcases List.mem_append.1 hy with hy | hy
        · exact hsame y hy
        · rw [List.mem_singleton.1 hy]
    · rw [Function.update_of_ne hne, if_neg (by rw [hconn]; exact hne.symm), List.append_nil]
      exact h.flow j
  · exact { h.files with
      valid := fun y hy => by
        rcases List.mem_append.1 hy with hy | hy
        · exact h.files.valid y hy
        · rw [List.mem_singleton.1 hy]
          exact hx
      logged := fun y hy => List.mem_append_left _ (h.files.logged y hy)
      held := fun j y stage hj => by
        rcases htask j y stage hj with ⟨rfl, rfl, rfl⟩ | hj
        · exact ⟨hconn, by simp [State.enter], fun n hn => by cases hn⟩
        · obtain ⟨hy, hlog, hn⟩ := h.files.held j y stage hj
          exact ⟨hy, List.mem_append_left _ hlog, hn⟩
      fresh := fun j y stage hj => by
        rcases htask j y stage hj with ⟨rfl, rfl, rfl⟩ | hj
        · exact fun _ n hn => by cases hn
        · exact h.files.fresh j y stage hj
      writing := fun j y n m hj => by
        rcases htask j y _ hj with ⟨-, -, hs⟩ | hj
        · cases hs
        · exact h.files.writing j y n m hj
      synced := fun j y n hj => by
        rcases htask j y _ hj with ⟨-, -, hs⟩ | hj
        · cases hs
        · exact h.files.synced j y n hj }

theorem Inv.onBinary (h : Inv c inbox s) {o : Origin} (htask : (s.conns k).task = .waiting o)
    (bytes : Bytes) (now : ℕ) : Inv c inbox (onBinary c s k o bytes now) := by
  have hq : (s.conns k).task.Quiet := by rw [htask]; trivial
  have hopen : ∀ r, (s.conns k).task ≠ .ended r := fun r hr => by rw [htask] at hr; cases hr
  have htcp : o ≠ .tcp := by
    have hflow := h.flow k
    rw [Flow, htask] at hflow
    exact hflow.1
  have hfail : ∀ (conn : Conn) (text : String), conn.task = .ended (.error text) →
      conn.received = (s.conns k).received ++ [bytes] → Inv c inbox (s.setConn k conn) :=
    fun conn text ht hr => h.setConn hq (by rw [ht]; trivial)
      ((h.flow k).fail hq hopen ht hr le_rfl)
  unfold Server.onBinary
  refine iteInduction (fun _ => hfail _ _ rfl rfl) fun hcap => ?_
  refine iteInduction (fun _ => hfail _ _ rfl rfl) fun _ => ?_
  cases hcontent : o.content bytes with
  | error e => exact hfail _ e rfl rfl
  | ok out =>
    refine h.enter hq hopen rfl ⟨Nat.le_of_not_lt hcap, hcontent, fun ho => absurd ho htcp⟩ ?_ rfl
    exact fun o' ho' => Task.waiting.inj (htask.symm.trans ho')

/-! ## Operations on the inbox -/

section Io

variable {x : Entry} {stage stage' : Stage} {name : Name}

/-- Only the task of the connection changes. -/
theorem task_setTask (s : State) (k : ℕ) (task : Task) (j : ℕ) :
    ((s.setTask k task).conns j).task = if j = k then task else (s.conns j).task := by
  rcases eq_or_ne j k with rfl | hne
  · simp [State.setTask, State.setConn]
  · simp [State.setTask, State.setConn, hne]

/-- Two connections do not write under one name. -/
theorem Files.name_ne (h : Files c inbox s) (hk : (s.conns k).task = .delivering x stage)
    (hname : name ∈ stage.name) {j : ℕ} (hjk : j ≠ k) {y : Entry}
    (hj : (s.conns j).task = .delivering y stage') : ∀ n ∈ stage'.name, n ≠ name := by
  rintro n hn rfl
  obtain ⟨hx, -, hissued⟩ := h.held k x stage hk
  obtain ⟨hy, -, hissued'⟩ := h.held j y stage' hj
  have hinj := List.inj_on_of_nodup_map h.distinct (hissued n hname) (hissued' n hn) rfl
  exact hjk (hy.symm.trans ((congrArg Entry.conn (congrArg Prod.snd hinj)).symm.trans hx))

/-- The flow of a connection whose task alone changes. -/
theorem flow_setTask (h : ∀ j, Flow c (s.conns j) (s.admitted j) (s.publishedBy j)) {task : Task}
    (hk : Flow c { s.conns k with task } (s.admitted k) (s.publishedBy k)) (j : ℕ) :
    Flow c ((s.setTask k task).conns j) (s.admitted j) (s.publishedBy j) := by
  rcases eq_or_ne j k with rfl | hne
  · simpa [State.setTask, State.setConn] using hk
  · simpa [State.setTask, State.setConn, hne] using h j

/-- The file in `tmp/` changes, or only the stage. -/
theorem Inv.tmp (h : Inv c inbox s) (hk : (s.conns k).task = .delivering x stage)
    (hname : stage.name = some name) (hname' : stage'.name = some name)
    (hun : stage.unpublished) (hun' : stage'.unpublished) {tmp : List (Name × Bytes)}
    (hother : ∀ n, n ≠ name → Table.get tmp n = Table.get s.inbox.tmp n)
    (hwriting : ∀ n m, stage' = .write n m → Table.get tmp n = some (x.bytes.take m))
    (hsynced : ∀ n, stage' = .rename n → Table.get tmp n = some x.bytes) :
    Inv c inbox ({ s with inbox := { s.inbox with tmp } }.setTask k (.delivering x stage')) := by
  have hcases : ∀ j y st, (({ s with inbox := { s.inbox with tmp } }.setTask k
      (.delivering x stage')).conns j).task = .delivering y st →
      (j = k ∧ y = x ∧ st = stage') ∨ (j ≠ k ∧ (s.conns j).task = .delivering y st) := by
    intro j y st hj
    rw [task_setTask] at hj
    split_ifs at hj with hjk
    · obtain ⟨rfl, rfl⟩ := Task.delivering.inj hj
      exact Or.inl ⟨hjk, rfl, rfl⟩
    · exact Or.inr ⟨hjk, hj⟩
  have hheld := h.files.held k x stage hk
  refine ⟨flow_setTask h.flow ?_, ?_⟩
  · have hflow := h.flow k
    simp only [Flow, hk, hun] at hflow
    simp only [Flow, hun']
    exact hflow
  · exact { h.files with
      held := fun j y st hj => by
        rcases hcases j y st hj with ⟨rfl, rfl, rfl⟩ | ⟨-, hj⟩
        · refine ⟨hheld.1, hheld.2.1, fun n hn => hheld.2.2 n ?_⟩
          rw [hname]
          rwa [hname'] at hn
        · exact h.files.held j y st hj
      fresh := fun j y st hj => by
        rcases hcases j y st hj with ⟨rfl, rfl, rfl⟩ | ⟨-, hj⟩
        · refine fun _ n hn => h.files.fresh j y stage hk hun n ?_
          rw [hname]
          rwa [hname'] at hn
        · exact h.files.fresh j y st hj
      writing := fun j y n m hj => by
        rcases hcases j y _ hj with ⟨-, rfl, hst⟩ | ⟨hjk, hj⟩
        · exact hwriting n m hst.symm
        · have hne := h.files.name_ne hk hname hjk hj n rfl
          exact (hother n hne).trans (h.files.writing j y n m hj)
      synced := fun j y n hj => by
        rcases hcases j y _ hj with ⟨-, rfl, hst⟩ | ⟨hjk, hj⟩
        · exact hsynced n hst.symm
        · have hne := h.files.name_ne hk hname hjk hj n rfl
          exact (hother n hne).trans (h.files.synced j y n hj) }

/-- A connection that writes is done, or fails. -/
theorem Inv.leave (h : Inv c inbox s) (hk : (s.conns k).task = .delivering x stage)
    (hname : stage.name = some name) (task : Task) (hq : task.Quiet)
    {tmp : List (Name × Bytes)}
    (hother : ∀ n, n ≠ name → Table.get tmp n = Table.get s.inbox.tmp n)
    (hflow : Flow c { s.conns k with task } (s.admitted k) (s.publishedBy k)) :
    Inv c inbox ({ s with inbox := { s.inbox with tmp } }.setTask k task) := by
  have hcases : ∀ j y st, (({ s with inbox := { s.inbox with tmp } }.setTask k task).conns j).task =
      .delivering y st → j ≠ k ∧ (s.conns j).task = .delivering y st := by
    intro j y st hj
    rw [task_setTask] at hj
    split_ifs at hj with hjk
    · rw [hj] at hq
      exact hq.elim
    · exact ⟨hjk, hj⟩
  refine ⟨flow_setTask h.flow hflow, ?_⟩
  exact { h.files with
    held := fun j y st hj => h.files.held j y st (hcases j y st hj).2
    fresh := fun j y st hj => h.files.fresh j y st (hcases j y st hj).2
    writing := fun j y n m hj => by
      obtain ⟨hjk, hj⟩ := hcases j y _ hj
      have hne := h.files.name_ne hk hname hjk hj n rfl
      exact (hother n hne).trans (h.files.writing j y n m hj)
    synced := fun j y n hj => by
      obtain ⟨hjk, hj⟩ := hcases j y _ hj
      have hne := h.files.name_ne hk hname hjk hj n rfl
      exact (hother n hne).trans (h.files.synced j y n hj) }

theorem issued_lt (h : Files c inbox s) (secs nanos : ℕ) :
    uniqueName secs nanos s.seq c.pid ∉ s.issued.map Prod.fst := by
  intro hmem
  obtain ⟨y, hy, hname⟩ := List.mem_map.1 hmem
  obtain ⟨secs', nanos', seq, hlt, hseq⟩ := h.names y hy
  rw [hseq] at hname
  exact absurd (uniqueName_seq hname) hlt.ne

theorem Inv.onDraw (h : Inv c inbox s) (hk : (s.conns k).task = .delivering x .begin)
    (secs nanos : ℕ) : Inv c inbox (onDraw c s k x secs nanos) := by
  have hnew := issued_lt h.files secs nanos
  have hheld := h.files.held k x .begin hk
  have hcases : ∀ j y st, ((Server.onDraw c s k x secs nanos).conns j).task = .delivering y st →
      (j = k ∧ y = x ∧ st = .create (uniqueName secs nanos s.seq c.pid)) ∨
        (s.conns j).task = .delivering y st := by
    intro j y st hj
    replace hj : ((s.setTask k (.delivering x (.create _))).conns j).task = _ := hj
    rw [task_setTask] at hj
    split_ifs at hj with hjk
    · obtain ⟨rfl, rfl⟩ := Task.delivering.inj hj
      exact Or.inl ⟨hjk, rfl, rfl⟩
    · exact Or.inr hj
  refine ⟨flow_setTask h.flow ?_, ?_⟩
  · have hflow := h.flow k
    simp only [Flow, hk] at hflow
    exact hflow
  · exact { h.files with
      names := fun y hy => by
        rcases List.mem_append.1 hy with hy | hy
        · obtain ⟨secs', nanos', seq, hlt, hname⟩ := h.files.names y hy
          exact ⟨secs', nanos', seq, Nat.lt_succ_of_lt hlt, hname⟩
        · rw [List.mem_singleton.1 hy]
          exact ⟨secs, nanos, s.seq, Nat.lt_succ_self _, rfl⟩
      distinct := by
        show ((s.issued ++ [_]).map Prod.fst).Nodup
        rw [List.map_append]
        refine List.nodup_append.2 ⟨h.files.distinct, List.nodup_singleton _, ?_⟩
        rintro n hn m hm rfl
        rw [List.map_singleton, List.mem_singleton] at hm
        rw [hm] at hn
        exact hnew hn
      logged := fun y hy => by
        rcases List.mem_append.1 hy with hy | hy
        · exact h.files.logged y hy
        · rw [List.mem_singleton.1 hy]
          exact hheld.2.1
      held := fun j y st hj => by
        rcases hcases j y st hj with ⟨rfl, rfl, rfl⟩ | hj
        · refine ⟨hheld.1, hheld.2.1, fun n hn => List.mem_append_right _ ?_⟩
          rw [← Option.some.inj hn]
          exact List.mem_singleton.2 rfl
        · obtain ⟨hy, hlog, hn⟩ := h.files.held j y st hj
          exact ⟨hy, hlog, fun n hmem => List.mem_append_left _ (hn n hmem)⟩
      fresh := fun j y st hj => by
        rcases hcases j y st hj with ⟨rfl, rfl, rfl⟩ | hj
        · intro _ n hn hpub
          rw [← Option.some.inj hn] at hpub
          obtain ⟨z, hz, hzn⟩ := List.mem_map.1 hpub
          exact hnew (hzn ▸ List.mem_map_of_mem (h.files.issued z hz))
        · exact h.files.fresh j y st hj
      issued := fun y hy => List.mem_append_left _ (h.files.issued y hy)
      writing := fun j y n m hj => by
        rcases hcases j y _ hj with ⟨-, -, hst⟩ | hj
        · cases hst
        · exact h.files.writing j y n m hj
      synced := fun j y n hj => by
        rcases hcases j y _ hj with ⟨-, -, hst⟩ | hj
        · cases hst
        · exact h.files.synced j y n hj }

theorem count_keys_del (t : List (Name × Bytes)) (n m : Name) :
    (Table.keys (Table.del t n)).count m = if m = n then 0 else (Table.keys t).count m := by
  have hkeys : Table.keys (Table.del t n) = (Table.keys t).filter (· ≠ n) := by
    rw [Table.keys, Table.del, Table.keys, List.filter_map]
    rfl
  rw [hkeys]
  split_ifs with h
  · exact List.count_eq_zero_of_not_mem fun hm => by simp [h] at hm
  · rw [List.count_filter (by simpa using h)]

theorem publishedBy_concat (s : State) (name : Name) (y : Entry) (j : ℕ) :
    ((s.published ++ [(name, y)]).map Prod.snd).filter (·.conn = j) =
      s.publishedBy j ++ if y.conn = j then [y] else [] := by
  by_cases h : y.conn = j <;> simp [State.publishedBy, List.filter_append, h]

/-- A name that no file was found under and that is not published is nowhere in `new/` and was
never taken. -/
theorem Files.unknown (h : Files c inbox s) (hfound : name ∉ Table.keys inbox.new)
    (hfresh : name ∉ s.published.map Prod.fst) :
    name ∉ Table.keys s.inbox.new ++ s.taken.map Prod.fst := by
  intro hmem
  rw [Table.keys, ← List.map_append] at hmem
  obtain ⟨p, hp, rfl⟩ := List.mem_map.1 hmem
  rcases h.known p hp with hp | ⟨y, hy, rfl⟩
  · exact hfound (List.mem_map_of_mem hp)
  · exact hfresh (List.mem_map_of_mem hy)

theorem Inv.publish (h : Inv c inbox s)
    (hk : (s.conns k).task = .delivering x (.rename name)) :
    Inv c inbox { s.setTask k (.delivering x (.sync name)) with
      inbox := s.inbox.received name x.bytes
      published := s.published ++ [(name, x)] } := by
  obtain ⟨hconn, hlog, hissued⟩ := h.files.held k x _ hk
  have hmine := hissued name rfl
  have hfresh := h.files.fresh k x _ hk rfl name rfl
  have hold : ∀ y ∈ s.published, y.1 ≠ name := fun y hy he =>
    hfresh (he ▸ List.mem_map_of_mem hy)
  have hcases : ∀ j y st, ((s.setTask k (.delivering x (.sync name))).conns j).task =
      .delivering y st →
      (j = k ∧ y = x ∧ st = .sync name) ∨ (j ≠ k ∧ (s.conns j).task = .delivering y st) := by
    intro j y st hj
    rw [task_setTask] at hj
    split_ifs at hj with hjk
    · obtain ⟨rfl, rfl⟩ := Task.delivering.inj hj
      exact Or.inl ⟨hjk, rfl, rfl⟩
    · exact Or.inr ⟨hjk, hj⟩
  refine ⟨fun j => ?_, ?_⟩
  · show Flow c ((s.setTask k (.delivering x (.sync name))).conns j) (s.admitted j)
      (((s.published ++ [(name, x)]).map Prod.snd).filter (·.conn = j))
    rw [publishedBy_concat]
    rcases eq_or_ne j k with rfl | hne
    · have hflow := h.flow j
      simp only [Flow, hk, Stage.unpublished, if_true] at hflow
      simp only [Flow, State.setTask, State.setConn, Function.update_self, Stage.unpublished,
        if_pos hconn, Bool.false_eq_true, if_false, List.append_nil]
      exact hflow
    · rw [if_neg (by rw [hconn]; exact hne.symm), List.append_nil, State.setTask, State.setConn]
      simp only [Function.update_of_ne hne]
      exact h.flow j
  · exact { h.files with
      held := fun j y st hj => by
        rcases hcases j y st hj with ⟨rfl, rfl, rfl⟩ | ⟨-, hj⟩
        · exact ⟨hconn, hlog, fun n hn => hissued n hn⟩
        · exact h.files.held j y st hj
      fresh := fun j y st hj => by
        rcases hcases j y st hj with ⟨rfl, rfl, rfl⟩ | ⟨hjk, hj⟩
        · exact fun hun => absurd hun Bool.false_ne_true
        · intro hun n hn hmem
          rw [List.map_append, List.mem_append] at hmem
          rcases hmem with hmem | hmem
          · exact h.files.fresh j y st hj hun n hn hmem
          · exact h.files.name_ne hk rfl hjk hj n hn (List.mem_singleton.1 hmem)
      issued := fun y hy => by
        rcases List.mem_append.1 hy with hy | hy
        · exact h.files.issued y hy
        · rw [List.mem_singleton.1 hy]
          exact hmine
      once := by
        rw [List.map_append]
        refine List.nodup_append.2 ⟨h.files.once, List.nodup_singleton _, ?_⟩
        rintro n hn m hm rfl
        rw [List.map_singleton, List.mem_singleton] at hm
        rw [hm] at hn
        exact hfresh hn
      writing := fun j y n m hj => by
        rcases hcases j y _ hj with ⟨-, -, hst⟩ | ⟨hjk, hj⟩
        · cases hst
        · have hne := h.files.name_ne hk rfl hjk hj n rfl
          exact (Table.get_del_of_ne hne.symm s.inbox.tmp).trans (h.files.writing j y n m hj)
      synced := fun j y n hj => by
        rcases hcases j y _ hj with ⟨-, -, hst⟩ | ⟨hjk, hj⟩
        · cases hst
        · have hne := h.files.name_ne hk rfl hjk hj n rfl
          exact (Table.get_del_of_ne hne.symm s.inbox.tmp).trans (h.files.synced j y n hj)
      keys := Table.nodup_put h.files.keys name x.bytes
      there := fun y hy => by
        rcases List.mem_append.1 hy with hy | hy
        · rcases List.mem_append.1 (h.files.there y hy) with hmem | hmem
          · refine List.mem_append_left _ (List.mem_cons_of_mem _ ?_)
            exact List.mem_filter.2 ⟨hmem, by simpa using hold y hy⟩
          · exact List.mem_append_right _ hmem
        · rw [List.mem_singleton.1 hy]
          exact List.mem_append_left _ List.mem_cons_self
      single := fun y hy hfound => by
        have hput : Table.keys (s.inbox.received name x.bytes).new =
            name :: Table.keys (Table.del s.inbox.new name) := rfl
        rw [List.count_append, hput]
        rcases List.mem_append.1 hy with hy | hy
        · have hcount := h.files.single y hy hfound
          have hne := hold y hy
          rw [List.count_append] at hcount
          rw [List.count_cons_of_ne hne.symm, count_keys_del, if_neg hne]
          exact hcount
        · rw [List.mem_singleton.1 hy] at hfound ⊢
          have hunknown := h.files.unknown hfound hfresh
          rw [List.mem_append, not_or] at hunknown
          have htaken : (s.taken.map Prod.fst).count name = 0 :=
            List.count_eq_zero_of_not_mem hunknown.2
          rw [List.count_cons_self, count_keys_del, if_pos rfl]
          exact congrArg (0 + 1 + ·) htaken
      known := fun p hp => by
        rcases List.mem_append.1 hp with hp | hp
        · rcases List.mem_cons.1 hp with rfl | hp
          · exact Or.inr ⟨(name, x), List.mem_append_right _ (List.mem_singleton.2 rfl), rfl⟩
          · have hnew := List.mem_append_left s.taken (List.mem_of_mem_filter hp)
            refine (h.files.known p hnew).imp_right ?_
            rintro ⟨y, hy, rfl⟩
            exact ⟨y, List.mem_append_left _ hy, rfl⟩
        · refine (h.files.known p (List.mem_append_right _ hp)).imp_right ?_
          rintro ⟨y, hy, rfl⟩
          exact ⟨y, List.mem_append_left _ hy, rfl⟩ }

theorem eq_of_get_of_mem {t : List (Name × Bytes)} (h : (Table.keys t).Nodup) {n : Name}
    {b b' : Bytes} (hget : Table.get t n = some b) (hmem : (n, b') ∈ t) : b' = b :=
  congrArg Prod.snd (List.inj_on_of_nodup_map h hmem (Table.mem_of_get hget) rfl)

theorem Inv.take (h : Inv c inbox s) {bytes : Bytes}
    (hget : Table.get s.inbox.new name = some bytes) : Inv c inbox { s with
      inbox := { s.inbox with new := Table.del s.inbox.new name }
      taken := s.taken ++ [(name, bytes)] } where
  flow := h.flow
  files := { h.files with
    keys := Table.nodup_del h.files.keys name
    there := fun y hy => by
      rcases List.mem_append.1 (h.files.there y hy) with hmem | hmem
      · rcases eq_or_ne y.1 name with rfl | hne
        · rw [eq_of_get_of_mem h.files.keys hget hmem]
          simp
        · exact List.mem_append_left _ (List.mem_filter.2 ⟨hmem, by simpa using hne⟩)
      · exact List.mem_append_right _ (List.mem_append_left _ hmem)
    single := fun y hy hfound => by
      have hcount := h.files.single y hy hfound
      rw [List.count_append] at hcount
      rw [List.count_append, count_keys_del, List.map_append, List.count_append]
      rcases eq_or_ne y.1 name with rfl | hne
      · have hkey : (Table.keys s.inbox.new).count y.1 = 1 :=
          List.count_eq_one_of_mem h.files.keys (Table.mem_keys_of_get hget)
        have hself : ([(y.1, bytes)].map Prod.fst).count y.1 = 1 := by simp
        rw [if_pos rfl]
        omega
      · have hother : ([(name, bytes)].map Prod.fst).count y.1 = 0 :=
          List.count_eq_zero.2 (by simpa using hne)
        rw [if_neg hne]
        omega
    known := fun p hp => by
      refine h.files.known p ?_
      rcases List.mem_append.1 hp with hp | hp
      · exact List.mem_append_left _ (List.mem_of_mem_filter hp)
      · rcases List.mem_append.1 hp with hp | hp
        · exact List.mem_append_right _ hp
        · rw [List.mem_singleton.1 hp]
          exact List.mem_append_left _ (Table.mem_of_get hget) }

theorem Inv.failIo (h : Inv c inbox s) (hk : (s.conns k).task = .delivering x stage)
    (hname : stage.name = some name) {tmp : List (Name × Bytes)}
    (hother : ∀ n, n ≠ name → Table.get tmp n = Table.get s.inbox.tmp n) (text : String) :
    Inv c inbox ({ s with inbox := { s.inbox with tmp } }.setTask k (.ended (.error text))) := by
  refine h.leave hk hname (.ended (.error text)) trivial hother ?_
  have hflow := h.flow k
  simp only [Flow, hk] at hflow
  obtain ⟨hadmitted, -, hsent, horigin⟩ := hflow
  have hlen : (s.admitted k).length = (s.conns k).received.length := by
    rw [← hsent, List.length_map]
  have hone : (s.admitted k).length ≤ (s.publishedBy k).length + 1 := by
    rw [hadmitted, List.length_append]
    split <;> simp
  exact ⟨⟨_, hadmitted.symm⟩, hone, hsent ▸ List.prefix_rfl, hlen ▸ Nat.le_succ _, _, horigin⟩

theorem Inv.onIo (h : Inv c inbox s) (hk : (s.conns k).task = .delivering x stage) {result : Io}
    (ht : onIo s k x stage result = some t) : Inv c inbox t := by
  cases stage with
  | begin => cases ht
  | create name =>
    cases result with
    | ok =>
      obtain rfl := Option.some.inj ht
      refine h.tmp hk rfl rfl rfl rfl (fun n hn => Table.get_put_of_ne hn.symm _ _) ?_ ?_
      · intro n m hst
        obtain ⟨rfl, rfl⟩ := Stage.write.inj hst
        exact Table.get_put_self _ _ _
      · exact fun n hst => Stage.noConfusion hst
    | wrote m => cases ht
    | err text removed =>
      obtain rfl := Option.some.inj ht
      exact h.failIo hk rfl (fun _ _ => rfl) _
  | write name n =>
    cases result with
    | ok =>
      rw [Server.onIo] at ht
      split_ifs at ht with hall
      obtain rfl := Option.some.inj ht
      refine h.tmp hk rfl rfl rfl rfl (fun _ _ => rfl) (fun n m hst => Stage.noConfusion hst) ?_
      intro n' hst
      obtain rfl := Stage.rename.inj hst
      rw [h.files.writing k x _ _ hk, hall, List.take_length]
    | wrote m =>
      rw [Server.onIo] at ht
      split_ifs at ht
      obtain rfl := Option.some.inj ht
      refine h.tmp hk rfl rfl rfl rfl (fun n hn => Table.get_put_of_ne hn.symm _ _) ?_ ?_
      · intro n' m' hst
        obtain ⟨rfl, rfl⟩ := Stage.write.inj hst
        exact Table.get_put_self _ _ _
      · exact fun n hst => Stage.noConfusion hst
    | err text removed =>
      obtain rfl := Option.some.inj ht
      exact h.failIo hk rfl (fun _ _ => rfl) _
  | rename name =>
    cases result with
    | ok =>
      rw [Server.onIo, h.files.synced k x name hk] at ht
      obtain rfl := Option.some.inj ht
      exact h.publish hk
    | wrote m => cases ht
    | err text removed =>
      obtain rfl := Option.some.inj ht
      refine h.failIo hk rfl (fun n hn => ?_) _
      split
      · exact Table.get_del_of_ne hn.symm _
      · rfl
  | sync name =>
    cases result with
    | ok =>
      obtain rfl := Option.some.inj ht
      have hflow := h.flow k
      simp only [Flow, hk, Stage.unpublished, Bool.false_eq_true, if_false,
        List.append_nil] at hflow
      obtain ⟨hpub, -, hsent, horigin⟩ := hflow
      by_cases htcp : x.origin = .tcp
      · rw [if_pos htcp]
        exact h.leave hk rfl (.ended (.ok ())) trivial (fun _ _ => rfl)
          ⟨hpub.symm, hsent, _, horigin⟩
      · rw [if_neg htcp]
        exact h.leave hk rfl (.waiting x.origin) trivial (fun _ _ => rfl)
          ⟨htcp, hpub.symm, hsent, horigin⟩
    | wrote m => cases ht
    | err text removed =>
      obtain rfl := Option.some.inj ht
      exact h.failIo hk rfl (fun _ _ => rfl) _

end Io

/-! ## Every run -/

theorem inv_step (h : Inv c inbox s) (ht : step c s e = some t) : Inv c inbox t := by
  cases e with
  | accept k =>
    rw [step] at ht
    split_ifs at ht with htask
    obtain rfl := Option.some.inj ht
    have hflow := h.flow k
    rw [Flow, htask] at hflow
    have hq : (s.conns k).task.Quiet := by rw [htask]; trivial
    have hq' : ({ s.conns k with task := .head } : Conn).task.Quiet := trivial
    exact h.setConn hq hq' hflow
  | head k bytes =>
    rw [step] at ht
    split_ifs at ht with htask
    obtain rfl := Option.some.inj ht
    exact h.onHead htask.1 bytes
  | upgraded k path random now dir =>
    rw [step] at ht
    split_ifs at ht with htask
    obtain rfl := Option.some.inj ht
    exact h.onUpgraded htask path random now dir
  | body k bytes =>
    cases htask : (s.conns k).task with
    | frame len =>
      simp only [step, htask] at ht
      split_ifs at ht with hlen
      obtain rfl := Option.some.inj ht
      have hflow := h.flow k
      rw [Flow, htask] at hflow
      have hcap := hflow.2.1
      have hpos := hflow.1
      rw [← hlen] at hcap hpos
      exact h.enter (by rw [htask]; trivial) (fun r hr => by rw [htask] at hr; cases hr) rfl
        ⟨hcap, rfl, fun _ => hpos⟩ (fun o ho => by rw [htask] at ho; cases ho) rfl
    | idle | head | handshake | waiting | delivering | tunnel | ended =>
      simp only [step, htask] at ht
      cases ht
  | message k m now =>
    cases htask : (s.conns k).task with
    | waiting o =>
      have hopen : ∀ r, (s.conns k).task ≠ .ended r := fun r hr => by rw [htask] at hr; cases hr
      cases m with
      | binary bytes =>
        simp only [step, htask] at ht
        obtain rfl := Option.some.inj ht
        exact h.onBinary htask bytes now
      | other =>
        simp only [step, htask] at ht
        obtain rfl := Option.some.inj ht
        exact h
      | close =>
        simp only [step, htask] at ht
        obtain rfl := Option.some.inj ht
        exact h.finishTask (by rw [htask]; trivial) hopen
    | idle | head | handshake | frame | delivering | tunnel | ended =>
      simp only [step, htask] at ht
      cases ht
  | closed k =>
    cases htask : (s.conns k).task with
    | waiting | tunnel =>
      simp only [step, htask] at ht
      obtain rfl := Option.some.inj ht
      exact h.finishTask (by rw [htask]; trivial) fun r hr => by rw [htask] at hr; cases hr
    | idle | head | handshake | frame | delivering | ended =>
      simp only [step, htask] at ht
      cases ht
  | fails k text =>
    cases htask : (s.conns k).task with
    | head | handshake | frame | waiting | tunnel =>
      simp only [step, htask] at ht
      obtain rfl := Option.some.inj ht
      exact h.failTask (by rw [htask]; trivial) (fun r hr => by rw [htask] at hr; cases hr) text
    | idle | delivering | ended =>
      simp only [step, htask] at ht
      cases ht
  | draw k secs nanos =>
    cases htask : (s.conns k).task with
    | delivering x stage =>
      cases stage with
      | begin =>
        simp only [step, htask] at ht
        obtain rfl := Option.some.inj ht
        exact h.onDraw htask secs nanos
      | create | write | rename | sync =>
        simp only [step, htask] at ht
        cases ht
    | idle | head | handshake | frame | waiting | tunnel | ended =>
      simp only [step, htask] at ht
      cases ht
  | io k result =>
    cases htask : (s.conns k).task with
    | delivering x stage =>
      simp only [step, htask] at ht
      exact h.onIo htask ht
    | idle | head | handshake | frame | waiting | tunnel | ended =>
      simp only [step, htask] at ht
      cases ht
  | take name =>
    obtain ⟨bytes, hget, rfl⟩ := Option.map_eq_some_iff.1 ht
    exact h.take hget

/-- What the inbox gets of a connection, at each point of it. -/
structure Delivered (s : State) (k : ℕ) : Prop where
  /-- In order, all but the one on its way or lost in a failure. -/
  inOrder : s.publishedBy k <+: s.admitted k
  lost : (s.admitted k).length ≤ (s.publishedBy k).length + 1
  /-- What is admitted is what the client has sent, all but the one that was refused. -/
  admitted : (s.admitted k).map Entry.sent <+: (s.conns k).received
  refused : (s.conns k).received.length ≤ (s.admitted k).length + 1
  /-- All of one leg. -/
  leg : ∃ o, ∀ x ∈ s.admitted k, x.origin = o
  /-- Everything, where the connection waits for a message or has ended well. -/
  all : ((∃ o, (s.conns k).task = .waiting o) ∨ (s.conns k).task = .ended (.ok ())) →
    (s.publishedBy k).map Entry.sent = (s.conns k).received

theorem Flow.delivered (h : Flow c (s.conns k) (s.admitted k) (s.publishedBy k)) :
    Delivered s k := by
  have hlen : ∀ {l : List Entry} {r : List Bytes}, l.map Entry.sent = r → r.length ≤ l.length + 1 :=
    fun hlr => by rw [← hlr, List.length_map]; exact Nat.le_succ _
  unfold Flow at h
  cases htask : (s.conns k).task with
  | idle | head | handshake | tunnel =>
    simp only [htask] at h
    obtain ⟨ha, hp, hr⟩ := h
    exact ⟨by rw [ha, hp], by simp [ha], by simp [ha], by simp [hr], ⟨.tcp, by simp [ha]⟩,
      by simp [htask]⟩
  | frame len =>
    simp only [htask] at h
    obtain ⟨-, -, ha, hp, hr⟩ := h
    exact ⟨by rw [ha, hp], by simp [ha], by simp [ha], by simp [hr], ⟨.tcp, by simp [ha]⟩,
      by simp [htask]⟩
  | waiting o =>
    simp only [htask] at h
    obtain ⟨-, hp, hs, ho⟩ := h
    exact ⟨hp ▸ List.prefix_rfl, hp ▸ Nat.le_succ _, hs ▸ List.prefix_rfl, hlen hs, ⟨o, ho⟩,
      fun _ => hp ▸ hs⟩
  | delivering x stage =>
    simp only [htask] at h
    obtain ⟨ha, -, hs, ho⟩ := h
    refine ⟨⟨_, ha.symm⟩, ?_, hs ▸ List.prefix_rfl, hlen hs, ⟨_, ho⟩, by simp [htask]⟩
    rw [ha, List.length_append]
    split <;> simp
  | ended r =>
    cases r with
    | ok u =>
      simp only [htask] at h
      obtain ⟨hp, hs, ho⟩ := h
      exact ⟨hp ▸ List.prefix_rfl, hp ▸ Nat.le_succ _, hs ▸ List.prefix_rfl, hlen hs, ho,
        fun _ => hp ▸ hs⟩
    | error text =>
      simp only [htask] at h
      obtain ⟨hp, hlost, hs, hr, ho⟩ := h
      exact ⟨hp, hlost, hs, hr, ho, by simp [htask]⟩

theorem run_inv (hkeys : (Table.keys inbox.new).Nodup)
    {es : List Event} (hr : run (step c) (started c inbox) es = some s) : Inv c inbox s :=
  run_preserves (fun _ _ _ hu he => inv_step hu he) (inv_started hkeys) hr

/-- In every run of the server, with any number of connections, however their steps and ANTIE's
interleave and wherever they fail: every file that has got into `new/` is the whole of one admitted
message, under a name of its own, and is there or was taken, and if no file was found under that
name, there is no other; nothing else is there or was taken but what the process has found; and of
each connection the inbox gets what it has sent. -/
theorem inbox_delivers (hkeys : (Table.keys inbox.new).Nodup)
    {es : List Event} (hr : run (step c) (started c inbox) es = some s) :
    (s.published.map Prod.fst).Nodup ∧
      (∀ x ∈ s.published, x.2 ∈ s.log ∧ x.2.Valid c ∧
        (x.1, x.2.bytes) ∈ s.inbox.new ++ s.taken ∧
        (x.1 ∉ Table.keys inbox.new →
          (Table.keys s.inbox.new ++ s.taken.map Prod.fst).count x.1 = 1)) ∧
      (∀ p ∈ s.inbox.new ++ s.taken,
        p ∈ inbox.new ∨ ∃ x ∈ s.published, p = (x.1, x.2.bytes)) ∧
      ∀ k, Delivered s k := by
  have h := run_inv hkeys hr
  refine ⟨h.files.once, fun x hx => ?_, h.files.known, fun k => (h.flow k).delivered⟩
  have hlog := h.files.logged x (h.files.issued x hx)
  exact ⟨hlog, h.files.valid _ hlog, h.files.there x hx, h.files.single x hx⟩

def sampleSetup : Setup := ⟨sampleConfig, true, 1, none, 7, fun _ => ""⟩

theorem keys_empty : (Table.keys (⟨[], []⟩ : Inbox).new).Nodup := List.nodup_nil

/-- A frame and a WebSocket that write at the same time; ANTIE takes the frame away, and a second
message within the second is refused. -/
def sampleEvents : List Event :=
  [.accept 0, .accept 1, .head 0 [2, 0, 0, 0], .body 0 (ascii "ab"), .head 1 (ascii "GET "),
    .upgraded 1 (ascii "/intake") [] 5 true, .message 1 (.binary (ascii "cd")) 6, .draw 1 9 1,
    .draw 0 9 1, .io 0 .ok, .io 1 .ok, .io 0 (.wrote 1), .io 1 (.wrote 2), .io 0 (.wrote 1),
    .io 1 .ok, .io 1 .ok, .io 0 .ok, .io 0 .ok, .take (uniqueName 9 1 1 7), .io 0 .ok, .io 1 .ok,
    .message 1 (.binary (ascii "ef")) 7]

theorem inbox_delivers_two : ∃ s,
    run (step sampleSetup) (started sampleSetup ⟨[], []⟩) sampleEvents = some s ∧
      s.inbox.new = [(uniqueName 9 1 0 7, ascii "cd")] ∧
      s.taken = [(uniqueName 9 1 1 7, ascii "ab")] ∧
      (s.publishedBy 1).map Entry.sent <+: [ascii "cd", ascii "ef"] := by
  have hfiles : (run (step sampleSetup) (started sampleSetup ⟨[], []⟩) sampleEvents).map
      (fun s => (s.inbox.new, s.taken)) =
      some ([(uniqueName 9 1 0 7, ascii "cd")], [(uniqueName 9 1 1 7, ascii "ab")]) := by
    decide +kernel
  have hreceived : (run (step sampleSetup) (started sampleSetup ⟨[], []⟩) sampleEvents).map
      (fun s => (s.conns 1).received) = some [ascii "cd", ascii "ef"] := by decide +kernel
  obtain ⟨s, hs, hfiles⟩ := Option.map_eq_some_iff.1 hfiles
  obtain ⟨hnew, htaken⟩ := Prod.mk.inj hfiles
  rw [hs, Option.map_some] at hreceived
  obtain ⟨-, -, -, hdelivered⟩ := inbox_delivers keys_empty hs
  have hsent := (hdelivered 1).inOrder.map Entry.sent
  exact ⟨s, hs, hnew, htaken, Option.some.inj hreceived ▸ hsent.trans (hdelivered 1).admitted⟩

end Tot.Server
