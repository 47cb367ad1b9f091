import AxiomCarriers.Fatmama.Collector
import AxiomCarriers.Lib.Sweep

/-!
# The passes of a collector

A pass of `_collect_outboxes` or `_collect_pickup` goes through the files of its directories, and a
collector makes one pass after the other.  Local delivery catches every error, with the removal of
the file in it.  Only FileNotFoundError is caught where a file is read, and nothing where a directory
is listed, where the test domains are looked up, and where a file is removed after another site has
accepted its mail.  An error that is not caught leaves the pass and the task.  A site that answers
but does not read holds the task up for ever, since `drain` has no timeout.

`collector_survives_iff` says that the collector comes to every file exactly if no directory and no
file stops it so.
-/

namespace Fatmama.Collector

open Bytes Sweeps

/-- What `exists` and `iterdir` come to on a directory. -/
inductive Listing (α : Type)
  | absent
  | raises
  | entries (l : List α)

/-- What `f.is_file()` comes to. -/
inductive Stat
  | file
  | other
  | raises
  deriving DecidableEq

/-- What `f.read_bytes()` comes to; `gone` is FileNotFoundError. -/
inductive Reading
  | ok (raw : Bytes)
  | gone
  | raises
  deriving DecidableEq

/-- What `cross_site_deliver` comes to.  It catches every error, and waits for the other site to read
without a timeout. -/
inductive Delivery
  | returns (accepted : Bool)
  | hangs
  deriving DecidableEq

/-- A file in its turn: what its steps come to, and the routes and `_xsite_last` that it finds.  The
other tasks of the server go on while a pass waits for a site, so each file finds its own. -/
structure Turn where
  file : Path
  stat : Stat
  reading : Reading
  routes : List (Address × Path)
  /-- What `extra_domains` returns; `none` is an error, of a list that is not UTF-8. -/
  extra : Option (List Bytes)
  /-- `my_domains` raises no error. -/
  named : Bool
  env : Env
  lastDial : List (Bytes × ℤ)
  /-- `deliver_to_maildir` and the removal of the file, under one `try`. -/
  delivered : Bool
  delivery : Delivery
  /-- The removal of a file that another site has accepted. -/
  unlinked : Bool

/-- What a pass has done so far: the number of files moved, and what it has put into
`_xsite_last`. -/
structure Tally where
  moved : ℕ
  dials : List (Bytes × ℤ)
  deriving DecidableEq

/-- What ends a collector: an error that nothing in the pass catches, or a dial that does not
return. -/
inductive Halt
  | listing
  | isFile
  | read
  | extraDomains
  | myDomains
  | dial
  | unlink
  deriving DecidableEq

/-! ## A file in its turn -/

/-- `CLUSTER_DOMAINS`. -/
def clusterDomains : List Bytes := [ascii "axiom", ascii "axiom.internal"]

/-- The server with the test domains of the turn. -/
def Turn.setup (c : Setup) (a : Turn) : Setup :=
  { c with domains := clusterDomains ++ a.extra.getD [] }

/-- `parse_delivery_address` looks up the test domains: there is an address inside the recipient, and
its domain is none of the cluster's. -/
def Consults (py : Str) (rcpt : Address) : Prop :=
  let inner := py.norm (rpartition rcpt).1
  64 ∈ rcpt ∧ 64 ∈ py.strip (rpartition rcpt).1 ∧ 64 ∈ inner ∧ (rpartition inner).1 ≠ [] ∧
    py.norm (rpartition inner).2 ∉ clusterDomains

instance (py : Str) (rcpt : Address) : Decidable (Consults py rcpt) :=
  inferInstanceAs (Decidable (_ ∧ _ ∧ _ ∧ _ ∧ _))

/-- The decision about a file that was read, with the errors of the lookups. -/
def planning (c : Setup) (w : Which) (a : Turn) (raw : Bytes) : Except Halt Plan :=
  let decision := plan (a.setup c) a.routes a.env w a.file raw
  match w with
  | .outboxes =>
    let rcpt := parseRecipient c.py raw
    if rcpt = [] ∨ Table.get a.routes rcpt ≠ none then .ok decision
    else if a.extra = none ∧ Consults c.py rcpt then .error .extraDomains
    else if ¬ a.named ∧ (parseDeliveryAddress c.py (a.setup c).domains rcpt).1 ≠ [] then
      .error .myDomains
    else .ok decision
  | .pickup => if a.named then .ok decision else .error .myDomains

/-- One file of a pass. -/
def collect (c : Setup) (w : Which) (s : Tally) (a : Turn) : Except Halt Tally :=
  match a.stat with
  | .raises => .error .isFile
  | .other => .ok s
  | .file =>
    match a.reading with
    | .raises => .error .read
    | .gone => .ok s
    | .ok raw =>
      match planning c w a raw with
      | .error e => .error e
      | .ok .keep => .ok s
      | .ok (.deliver _) => .ok (if a.delivered then { s with moved := s.moved + 1 } else s)
      | .ok (.dial host _) =>
        if a.env.now - (Table.get a.lastDial host).getD 0 < minInterval then .ok s
        else
          let dials := (host, a.env.stamped) :: s.dials
          match a.delivery with
          | .hangs => .error .dial
          | .returns false => .ok { s with dials }
          | .returns true => if a.unlinked then .ok ⟨s.moved + 1, dials⟩ else .error .unlink

/-- A lookup for the file raises an error. -/
def Unplanned (c : Setup) (a : Turn) (raw : Bytes) : Which → Prop
  | .outboxes =>
    let rcpt := parseRecipient c.py raw
    rcpt ≠ [] ∧ Table.get a.routes rcpt = none ∧
      (a.extra = none ∧ Consults c.py rcpt ∨
        ¬ a.named ∧ (parseDeliveryAddress c.py (a.setup c).domains rcpt).1 ≠ [])
  | .pickup => ¬ a.named

/-- The file is dialled for: it has a site to go to, and no dial there was too short ago. -/
def Dialled (c : Setup) (w : Which) (a : Turn) (raw : Bytes) : Prop :=
  ∃ host rcpt, plan (a.setup c) a.routes a.env w a.file raw = .dial host rcpt ∧
    minInterval ≤ a.env.now - (Table.get a.lastDial host).getD 0

/-- A step of the file does not come back to the pass. -/
def Raises (c : Setup) (w : Which) (a : Turn) : Prop :=
  a.stat = .raises ∨ a.stat = .file ∧
    (a.reading = .raises ∨ ∃ raw, a.reading = .ok raw ∧
      (Unplanned c a raw w ∨ Dialled c w a raw ∧
        (a.delivery = .hangs ∨ a.delivery = .returns true ∧ ¬ a.unlinked)))

variable {c : Setup} {w : Which} {a : Turn} {raw : Bytes}

theorem planning_ok (h : ¬ Unplanned c a raw w) :
    planning c w a raw = .ok (plan (a.setup c) a.routes a.env w a.file raw) := by
  cases w with
  | outboxes =>
    simp only [Unplanned, not_and, not_or] at h
    simp only [planning]
    split_ifs with hroute hextra hnamed
    · rfl
    · rw [not_or, not_not] at hroute
      exact absurd hextra.2 ((h hroute.1 hroute.2).1 hextra.1)
    · rw [not_or, not_not] at hroute
      exact absurd hnamed.2 ((h hroute.1 hroute.2).2 hnamed.1)
    · rfl
  | pickup => simp [planning, not_not.1 h]

theorem planning_error (h : Unplanned c a raw w) : ∃ e, planning c w a raw = .error e := by
  cases w with
  | outboxes =>
    obtain ⟨hrcpt, hroute, hlookup⟩ := h
    simp only [planning]
    rw [if_neg (by simp [hrcpt, hroute])]
    split_ifs with hextra hnamed
    · exact ⟨_, rfl⟩
    · exact ⟨_, rfl⟩
    · exact absurd hlookup (not_or.2 ⟨hextra, hnamed⟩)
  | pickup => exact ⟨_, if_neg h⟩

theorem collect_ok_iff (s : Tally) (a : Turn) :
    (∃ s', collect c w s a = .ok s') ↔ ¬ Raises c w a := by
  unfold collect Raises
  cases hstat : a.stat with
  | raises => simp
  | other => simp
  | file =>
    cases hreading : a.reading with
    | raises => simp
    | gone => simp
    | ok raw =>
      simp only [reduceCtorEq, false_or, true_and, Reading.ok.injEq, exists_eq_left']
      by_cases hplan : Unplanned c a raw w
      · obtain ⟨e, he⟩ := planning_error hplan
        simp [he, hplan]
      · simp only [planning_ok hplan, hplan, false_or, Dialled]
        cases plan (a.setup c) a.routes a.env w a.file raw with
        | keep => simp
        | deliver dest => simp
        | dial host rcpt =>
          by_cases hlast : a.env.now - (Table.get a.lastDial host).getD 0 < minInterval
          · simp [hlast]
          · cases a.delivery with
            | hangs => simp [hlast, not_lt.1 hlast]
            | returns accepted =>
              cases accepted <;> cases a.unlinked <;> simp [hlast, not_lt.1 hlast]

/-! ## Passes -/

/-- What a pass comes to in turn. -/
inductive Item
  | unlisted
  | turn (a : Turn)

def Item.turn? : Item → Option Turn
  | .unlisted => none
  | .turn a => some a

/-- The files of a directory, in turn. -/
def Listing.items : Listing Turn → List Item
  | .absent => []
  | .raises => [.unlisted]
  | .entries l => l.map .turn

/-- The files of a pass.  The outboxes are always known; what `_collect_pickup` finds in its base
directory is listed. -/
def items : Listing (Listing Turn) → List Item
  | .absent => []
  | .raises => [.unlisted]
  | .entries dirs => dirs.flatMap Listing.items

def turns (dirs : Listing (Listing Turn)) : List Turn := (items dirs).filterMap Item.turn?

def consider (c : Setup) (w : Which) (s : Tally) : Item → Except Halt Tally
  | .unlisted => .error .listing
  | .turn a => collect c w s a

/-- A pass: the files that it has come to, and its tally or what has ended it. -/
def pass (c : Setup) (w : Which) (dirs : Listing (Listing Turn)) : List Turn × Except Halt Tally :=
  let (seen, result) := sweep (consider c w) ⟨0, []⟩ (items dirs)
  (seen.filterMap Item.turn?, result)

/-- The collector over its passes: the files that it has come to, and whether it goes on. -/
def task (c : Setup) (w : Which) : List (Listing (Listing Turn)) → List Turn × Bool
  | [] => ([], true)
  | dirs :: passes =>
    match pass c w dirs with
    | (seen, .error _) => (seen, false)
    | (seen, .ok _) => (seen ++ (task c w passes).1, (task c w passes).2)

/-- The collector does not come back from the item. -/
def Stops (c : Setup) (w : Which) : Item → Prop
  | .unlisted => True
  | .turn a => Raises c w a

theorem consider_ok_iff (s : Tally) (i : Item) :
    (∃ s', consider c w s i = .ok s') ↔ ¬ Stops c w i := by
  cases i with
  | unlisted => simp [consider, Stops]
  | turn a => exact collect_ok_iff s a

theorem pass_ok_iff (dirs : Listing (Listing Turn)) :
    (∃ tally, (pass c w dirs).2 = .ok tally) ↔ ∀ i ∈ items dirs, ¬ Stops c w i :=
  sweep_ok_iff consider_ok_iff _ _

/-- A pass comes to every file when it goes through. -/
theorem pass_fst_of_ok {dirs : Listing (Listing Turn)} {tally : Tally}
    (h : (pass c w dirs).2 = .ok tally) : (pass c w dirs).1 = turns dirs :=
  congrArg (List.filterMap Item.turn?) (sweep_fst_of_ok h)

/-- A collector comes to every file of every pass and goes on after it, exactly if every directory
that is there can be listed; the lookups for a file raise no error; a file whose `is_file` does not
fail can be read or is gone; and a dial returns, and a file that another site has accepted can be
removed. -/
theorem collector_survives_iff (c : Setup) (w : Which) (passes : List (Listing (Listing Turn))) :
    task c w passes = (passes.flatMap turns, true) ↔
      ∀ dirs ∈ passes, ∀ i ∈ items dirs, ¬ Stops c w i := by
  induction passes with
  | nil => simp [task]
  | cons dirs passes ih =>
    rw [List.forall_mem_cons, ← ih, ← pass_ok_iff, List.flatMap_cons, task]
    split
    next seen e hpass => simp [hpass]
    next seen tally hpass =>
      have hok : (pass c w dirs).2 = .ok tally := by rw [hpass]
      have hseen : seen = turns dirs := by rw [← pass_fst_of_ok hok, hpass]
      simp [hpass, hseen, Prod.ext_iff]

/-- A file with a mail to a mailbox of the server, in its turn. -/
def sampleTurn (name : Bytes) (reading : Reading) : Turn where
  file := [ascii "outbox", ascii "new", name]
  stat := .file
  reading := reading
  routes := [(ascii "b@axiom", [ascii "mail"])]
  extra := some []
  named := true
  env := ⟨0, 0, [], []⟩
  lastDial := []
  delivered := true
  delivery := .returns false
  unlinked := true

/-- The first file of an outbox may not be read.  The collector stops there, and does not come to
the second one. -/
theorem collector_stopped : ¬ ∀ (c : Setup) (w : Which) (passes : List (Listing (Listing Turn))),
    task c w passes = (passes.flatMap turns, true) := by
  intro h
  have hseen := congrArg (fun x => x.1.length) (h sampleSetup .outboxes
    [.entries [.entries [sampleTurn (ascii "1") .raises,
      sampleTurn (ascii "2") (.ok (ascii "To: b@axiom\r\n\r\n"))]]])
  revert hseen
  decide

end Fatmama.Collector
