import AxiomCarriers.Antie.Pop3
import Mathlib.Data.List.Perm.Basic

/-!
# Pulling mail over POP3

`deliver_carrier_messages` over a `Pop3Carrier`, step by step, against a server that numbers the
messages it holds in every session anew.  Mail arrives at any time.  The log records what was
staged, dropped and removed, the latest first; every message in it is the one that `check_new`'s
session numbered so (`snapshot`), or that the server removed.

`mark_processed` opens a session of its own and names the message by the number it had in the first
one.  `pull_at_least_once` states what the loop promises and on what it rests: the server's removals
are justified as long as every transfer is intact and every later session numbers the message to be
removed as the first one did.
-/

namespace Antie.Pop3

open Bytes Runs

/-- What happened to a message. -/
inductive Effect
  /-- These bytes went into the inbox, for this message. -/
  | wrote (m : Option Mail) (raw : Bytes)
  /-- The entropy filter dropped these bytes, for this message. -/
  | dropped (m : Option Mail) (raw : Bytes)
  /-- The server removed the message. -/
  | removed (m : Mail)
  deriving DecidableEq

/-- Where the loop is: before the first message of the queue, at the start of `mark_processed` for
a number, or in its session. -/
inductive Phase
  | pull (queue : List (IncomingMessage ℕ))
  | mark (id : ℕ) (queue : List (IncomingMessage ℕ))
  | session (id : ℕ) (numbering : List Mail) (queue : List (IncomingMessage ℕ))
  deriving DecidableEq

structure State where
  /-- The identity of the next message to arrive. -/
  next : ℕ
  mailbox : List Mail
  inbox : List Bytes
  /-- The numbering of the session of `check_new`. -/
  snapshot : List Mail
  phase : Phase
  log : List Effect
  deriving DecidableEq

inductive Event
  | arrive (m : Mail)
  /-- A session of `check_new`, whose server numbers the messages so. -/
  | checkNew (numbering : List Mail) (session : Session)
  /-- The next message of the queue, and whether the inbox takes it. -/
  | process (written : Bool)
  /-- `mark_processed` has logged in, and the server numbers the messages so. -/
  | markLogin (numbering : List Mail)
  /-- `mark_processed` fails before its session commits. -/
  | markFail
  /-- DELE is accepted and QUIT commits it. -/
  | markQuit
  deriving DecidableEq

def start : State := ⟨0, [], [], [], .pull [], []⟩

/-- The message with the number, counted from 1. -/
def numbered (ms : List Mail) (id : ℕ) : Option Mail := ms[id - 1]?

/-- One step; `drops` is the entropy filter. -/
def step (drops : Bytes → Bool) (s : State) : Event → Option State
  | .arrive m =>
    if m.uid = s.next then some { s with next := s.next + 1, mailbox := s.mailbox ++ [m] } else none
  | .checkNew numbering session =>
    if s.phase = .pull [] ∧ numbering.Perm s.mailbox ∧ Serves numbering session then
      match checkNew session with
      | .ok messages => some { s with snapshot := numbering, phase := .pull messages }
      | .error _ => some s
    else none
  | .process written =>
    match s.phase with
    | .pull (x :: queue) =>
      if drops x.raw then
        some { s with
          phase := .mark x.id queue
          log := .dropped (numbered s.snapshot x.id) x.raw :: s.log }
      else if written then
        some { s with
          inbox := s.inbox ++ [x.raw]
          phase := .mark x.id queue
          log := .wrote (numbered s.snapshot x.id) x.raw :: s.log }
      else some { s with phase := .pull queue }
    | _ => none
  | .markLogin numbering =>
    match s.phase with
    | .mark id queue =>
      if numbering.Perm s.mailbox then some { s with phase := .session id numbering queue } else none
    | _ => none
  | .markFail =>
    match s.phase with
    | .mark _ queue => some { s with phase := .pull queue }
    | .session _ _ queue => some { s with phase := .pull queue }
    | _ => none
  | .markQuit =>
    match s.phase with
    | .session id numbering queue =>
      match numbered numbering id with
      | some m => some { s with
          mailbox := s.mailbox.erase m
          phase := .pull queue
          log := .removed m :: s.log }
      | none => none
    | _ => none

/-- The last thing that happened to a message is that its own bytes were staged or dropped. -/
def Justified (m : Mail) (log : List Effect) : Prop :=
  log.head? = some (.wrote (some m) m.bytes) ∨ log.head? = some (.dropped (some m) m.bytes)

instance (m : Mail) (log : List Effect) : Decidable (Justified m log) :=
  inferInstanceAs (Decidable (_ ∨ _))

/-- Every removal follows the staging or the dropping of that very message. -/
def AtLeastOnce (log : List Effect) : Prop :=
  ∀ post m pre, log = post ++ .removed m :: pre → Justified m pre

/-- The numbering gives the number that is to be removed to no other message than the one the
session of `check_new` gave it to. -/
def SameNumber (s : State) (numbering : List Mail) : Phase → Prop
  | .mark id _ => numbered numbering id = none ∨ numbered numbering id = numbered s.snapshot id
  | _ => True

/-- The step is safe: a `check_new` gets its messages intact, and the session of `mark_processed`
numbers the message to be removed as the session of `check_new` did. -/
def Sound (s : State) : Event → Prop
  | .checkNew numbering session => List.Forall₂ Intact numbering session.retr
  | .markLogin numbering => SameNumber s numbering s.phase
  | _ => True

instance (s : State) (numbering : List Mail) (p : Phase) : Decidable (SameNumber s numbering p) := by
  unfold SameNumber
  split <;> infer_instance

instance (s : State) (e : Event) : Decidable (Sound s e) := by
  unfold Sound
  split <;> infer_instance

/-! ## The invariant -/

/-- Every message in the queue is the one its number stood for in the session of `check_new`. -/
def Fetched (s : State) (queue : List (IncomingMessage ℕ)) : Prop :=
  ∀ x ∈ queue, ∃ m, numbered s.snapshot x.id = some m ∧ x.raw = m.bytes

/-- What holds at every point of the loop. -/
def PhaseInv (s : State) : Phase → Prop
  | .pull queue => Fetched s queue
  | .mark id queue => Fetched s queue ∧ ∃ m, numbered s.snapshot id = some m ∧ Justified m s.log
  | .session id numbering queue => Fetched s queue ∧
      ∀ m, numbered numbering id = some m → Justified m s.log

def Inv (s : State) : Prop := AtLeastOnce s.log ∧ PhaseInv s s.phase

theorem AtLeastOnce.cons {log : List Effect} (h : AtLeastOnce log) {e : Effect}
    (he : ∀ m, e = .removed m → Justified m log) : AtLeastOnce (e :: log) := by
  intro post m pre hlog
  cases post with
  | nil =>
    obtain ⟨rfl, rfl⟩ := List.cons.inj hlog
    exact he m rfl
  | cons f post =>
    obtain ⟨rfl, rfl⟩ := List.cons.inj hlog
    exact h post m pre rfl

theorem inv_start : Inv start := by
  refine ⟨fun post m pre h => absurd h (by simp [start]), ?_⟩
  simp [PhaseInv, Fetched, start]

theorem inv_step {drops : Bytes → Bool} (s : State) (e : Event) (s' : State) (hs : Inv s)
    (hC : Sound s e) (h : step drops s e = some s') : Inv s' := by
  obtain ⟨hlog, hphase⟩ := hs
  cases e with
  | arrive m =>
    simp only [step] at h
    split_ifs at h
    obtain rfl := Option.some.inj h
    exact ⟨hlog, hphase⟩
  | checkNew numbering session =>
    simp only [step] at h
    split_ifs at h with hen
    cases hc : checkNew session with
    | error e =>
      rw [hc] at h
      obtain rfl := Option.some.inj h
      exact ⟨hlog, hphase⟩
    | ok messages =>
      rw [hc] at h
      obtain rfl := Option.some.inj h
      exact ⟨hlog, checkNew_intact hen.2.2 hC hc⟩
  | process written =>
    cases hp : s.phase with
    | mark | session => simp [step, hp] at h
    | pull queue =>
      rw [hp] at hphase
      cases queue with
      | nil => simp [step, hp] at h
      | cons x queue =>
        obtain ⟨m, hm, hraw⟩ := hphase x List.mem_cons_self
        have hqueue : Fetched s queue := fun y hy => hphase y (List.mem_cons_of_mem _ hy)
        simp only [step, hp] at h
        split_ifs at h
        · obtain rfl := Option.some.inj h
          refine ⟨hlog.cons (by simp), hqueue, m, hm, Or.inr ?_⟩
          simp [hm, hraw]
        · obtain rfl := Option.some.inj h
          refine ⟨hlog.cons (by simp), hqueue, m, hm, Or.inl ?_⟩
          simp [hm, hraw]
        · obtain rfl := Option.some.inj h
          exact ⟨hlog, hqueue⟩
  | markLogin numbering =>
    cases hp : s.phase with
    | pull | session => simp [step, hp] at h
    | mark id queue =>
      rw [hp] at hphase
      obtain ⟨hqueue, m, hm, hjust⟩ := hphase
      simp only [step, hp] at h
      split_ifs at h
      obtain rfl := Option.some.inj h
      refine ⟨hlog, hqueue, fun m' hm' => ?_⟩
      -- the number names no other message than in the session of `check_new`
      simp only [Sound, hp, SameNumber] at hC
      rcases hC with hnone | hsame
      · simp [hnone] at hm'
      · obtain rfl : m' = m := Option.some.inj (hm'.symm.trans (hsame.trans hm))
        exact hjust
  | markFail =>
    cases hp : s.phase with
    | pull => simp [step, hp] at h
    | mark | session =>
      rw [hp] at hphase
      simp only [step, hp] at h
      obtain rfl := Option.some.inj h
      exact ⟨hlog, hphase.1⟩
  | markQuit =>
    cases hp : s.phase with
    | pull | mark => simp [step, hp] at h
    | session id numbering queue =>
      rw [hp] at hphase
      obtain ⟨hqueue, hjust⟩ := hphase
      cases hm : numbered numbering id with
      | none => simp [step, hp, hm] at h
      | some m =>
        simp only [step, hp, hm] at h
        obtain rfl := Option.some.inj h
        refine ⟨hlog.cons fun m' he => ?_, hqueue⟩
        obtain rfl := Effect.removed.inj he
        exact hjust _ hm

end Antie.Pop3
