import AxiomCarriers.Fatmama.Recipient
import AxiomCarriers.Fatmama.Routes

/-!
# The collectors

ANTIE writes mails into its outboxes and into its pickup directory; FATMAMA's two collectors take
them from there, `_collect_outboxes` and `_collect_pickup`.  Each goes through listings of its
directories, reads a file, decides where it goes (`outboxPlan`, `pickupPlan`), delivers it into a
mailbox or dials its site, and removes the file.  The model takes every one of these actions by
itself, in any order of the two, and the server may crash between any two.
`collectors_lose_nothing` says that a file leaves its directory only when its mail has arrived.

Files appear in the directories under fresh names.  The logs `arrived`, `used`, `routed`, `placed`,
`accepted` and `history` are not part of the program.
-/

namespace Fatmama.Collector

open Bytes Runs

structure Setup where
  py : Str
  domains : List Bytes
  outboxes : List Path
  pickupBase : Option Path

/-- The two collectors. -/
inductive Which
  | outboxes
  | pickup
  deriving DecidableEq

/-- The file lies where the collector lists: in `new` of an outbox, or of a directory below the
base. -/
def belongs (c : Setup) : Which → Path → Bool
  | .outboxes, f => c.outboxes.any fun outbox => f.dropLast = outbox ++ [ascii "new"]
  | .pickup, f => c.pickupBase.any fun base =>
    base <+: f && f.length = base.length + 3 && f.dropLast.getLast? = some (ascii "new")

def isSource (c : Setup) (f : Path) : Bool := belongs c .outboxes f || belongs c .pickup f

/-! ## Decisions -/

/-- What a collector decides about a file. -/
inductive Plan
  | keep
  | deliver (dest : Path)
  | dial (host rcpt : Bytes)
  deriving DecidableEq

/-- What a decision rests on besides the file and the routes: the time in microseconds, `my_domains`
and `_advertised_hosts`.  The time is read a second time for the stamp of a dial. -/
structure Env where
  now : ℤ
  stamped : ℤ
  mine : List Bytes
  advertised : List Bytes

def outboxPlan (c : Setup) (routes : List (Address × Path)) (mine : List Bytes) (raw : Bytes) : Plan :=
  let rcpt := parseRecipient c.py raw
  if rcpt = [] then .keep
  else match Table.get routes rcpt with
    | some dest => .deliver dest
    | none =>
      let (inner, host) := parseDeliveryAddress c.py c.domains rcpt
      if inner = [] then .keep
      else if host ∈ mine then
        match Table.get routes inner with
        | some dest => .deliver dest
        | none => .keep
      else .dial host rcpt

/-- The domain that a pickup directory is named by. -/
def pickupDomain (c : Setup) (f : Path) : Bytes :=
  canonicalHost c.py (f.dropLast.dropLast.getLast?.getD [])

def pickupPlan (c : Setup) (routes : List (Address × Path)) (env : Env) (f : Path) (raw : Bytes) : Plan :=
  let domain := pickupDomain c f
  let rcpt := parseRecipient c.py raw
  if domain ∈ env.mine ∨ domain ∈ env.advertised then
    match if rcpt = [] then none else Table.get routes rcpt with
    | some dest => .deliver dest
    | none => .keep
  else .dial domain (if rcpt = [] then ascii "pickup@" ++ domain else rcpt)

def plan (c : Setup) (routes : List (Address × Path)) (env : Env) : Which → Path → Bytes → Plan
  | .outboxes, _, raw => outboxPlan c routes env.mine raw
  | .pickup, f, raw => pickupPlan c routes env f raw

/-- `CROSS_SITE_MIN_INTERVAL_S`, in microseconds. -/
def minInterval : ℤ := 2000000

/-! ## Steps -/

/-- Where a collector is with the file that it has taken. -/
inductive Stage
  | next
  | read (f : Path) (raw : Bytes)
  | deliver (f : Path) (raw : Bytes) (dest : Path)
  /-- The mail is written into `tmp` under the name. -/
  | written (f : Path) (raw : Bytes) (dest : Path) (name : Bytes)
  | dial (f : Path) (raw host rcpt : Bytes)
  /-- The file is to be removed; `caught` says that an error then is caught. -/
  | unlink (f : Path) (caught : Bool)
  /-- An error has ended the collector. -/
  | stopped
  deriving DecidableEq

structure Loop where
  queue : List Path
  stage : Stage
  deriving DecidableEq

/-- A mail that was put into `new` of a maildir: the file it was collected from, and what was
put. -/
structure Placed where
  source : Path
  path : Path
  raw : Bytes
  maildir : Path
  deriving DecidableEq

structure State where
  files : List (Path × Bytes)
  routes : List (Address × Path)
  /-- `_xsite_last`. -/
  lastDial : List (Bytes × ℤ)
  loops : Which → Loop
  arrived : List (Path × Bytes)
  /-- The file names that were given out. -/
  used : List Bytes
  /-- The files that were found to have a way to go. -/
  routed : List Path
  placed : List Placed
  /-- The files whose mail another site has accepted. -/
  accepted : List Path
  history : List (List (Address × Path))

/-- How the writing of a file ends. -/
inductive Writing
  | whole
  /-- An error after so many bytes. -/
  | part (n : ℕ)
  | failed

inductive Event
  /-- A writer puts a file into a directory. -/
  | put (dir : Path) (name raw : Bytes)
  /-- The routes are loaded or changed. -/
  | setRoutes (routes : List (Address × Path))
  /-- Someone else removes a file that is in no source directory. -/
  | remove (path : Path)
  | list (w : Which) (listing : List Path)
  | read (w : Which)
  | route (w : Which) (env : Env)
  /-- `deliver_to_maildir` writes the mail into `tmp`. -/
  | write (w : Which) (name : Bytes) (how : Writing)
  | rename (w : Which) (ok : Bool)
  /-- `cross_site_deliver` returns. -/
  | dialed (w : Which) (ok : Bool)
  | unlink (w : Which) (ok : Bool)
  /-- An error in listing or reading. -/
  | fail (w : Which)
  | crash

def State.setLoop (s : State) (w : Which) (l : Loop) : State :=
  { s with loops := Function.update s.loops w l }

def State.setStage (s : State) (w : Which) (stage : Stage) : State :=
  s.setLoop w ⟨(s.loops w).queue, stage⟩

def tmpPath (dest : Path) (name : Bytes) : Path := dest ++ [ascii "tmp", name]

def newPath (dest : Path) (name : Bytes) : Path := dest ++ [ascii "new", name]

/-- The state with another file, and with its name given out. -/
def addFile (c : Setup) (s : State) (f : Path) (name b : Bytes) : State :=
  { s with
    files := Table.put s.files f b
    arrived := if isSource c f then (f, b) :: s.arrived else s.arrived
    used := name :: s.used }

/-- The decision about a file that was read. -/
def route (c : Setup) (s : State) (w : Which) (env : Env) (f : Path) (raw : Bytes) : State :=
  match plan c s.routes env w f raw with
  | .keep => s.setStage w .next
  | .deliver dest => { s with routed := f :: s.routed }.setStage w (.deliver f raw dest)
  | .dial host rcpt =>
    if env.now - (Table.get s.lastDial host).getD 0 < minInterval then
      { s with routed := f :: s.routed }.setStage w .next
    else
      { s with
        routed := f :: s.routed
        lastDial := Table.put s.lastDial host env.stamped }.setStage w (.dial f raw host rcpt)

def write (c : Setup) (s : State) (w : Which) (name : Bytes) (f : Path) (raw : Bytes) (dest : Path) :
    Writing → State
  | .whole => (addFile c s (tmpPath dest name) name raw).setStage w (.written f raw dest name)
  | .part n => (addFile c s (tmpPath dest name) name (raw.take n)).setStage w .next
  | .failed => s.setStage w .next

def rename (c : Setup) (s : State) (w : Which) (f dest : Path) (name : Bytes) : State :=
  match Table.get s.files (tmpPath dest name) with
  | some content =>
    let moved := addFile c { s with files := Table.del s.files (tmpPath dest name) } (newPath dest name)
      name content
    { moved with placed := ⟨f, newPath dest name, content, dest⟩ :: s.placed }.setStage w
      (.unlink f true)
  | none => s.setStage w .next

def unlink (s : State) (w : Which) (f : Path) (caught ok : Bool) : State :=
  if ok ∧ Table.get s.files f ≠ none then
    { s with files := Table.del s.files f }.setStage w .next
  else if caught then s.setStage w .next
  else s.setLoop w ⟨[], .stopped⟩

def step (c : Setup) (s : State) : Event → Option State
  | .put dir name raw =>
    if name ∈ s.used then none
    else some (addFile c s (dir ++ [name]) name raw)
  | .setRoutes routes => some { s with routes := routes, history := routes :: s.history }
  | .remove path =>
    if isSource c path then none else some { s with files := Table.del s.files path }
  | .list w listing =>
    if (s.loops w).stage = .next ∧ (s.loops w).queue = [] ∧
        ∀ f ∈ listing, belongs c w f ∧ Table.get s.files f ≠ none then
      some (s.setLoop w ⟨listing, .next⟩)
    else none
  | .read w =>
    match (s.loops w).stage, (s.loops w).queue with
    | .next, f :: queue =>
      match Table.get s.files f with
      | some raw => some (s.setLoop w ⟨queue, .read f raw⟩)
      | none => some (s.setLoop w ⟨queue, .next⟩)
    | _, _ => none
  | .route w env =>
    match (s.loops w).stage with
    | .read f raw => some (route c s w env f raw)
    | _ => none
  | .write w name how =>
    match (s.loops w).stage with
    | .deliver f raw dest => if name ∈ s.used then none else some (write c s w name f raw dest how)
    | _ => none
  | .rename w ok =>
    match (s.loops w).stage with
    | .written f _ dest name =>
      if ok then some (rename c s w f dest name) else some (s.setStage w .next)
    | _ => none
  | .dialed w ok =>
    match (s.loops w).stage with
    | .dial f _ _ _ =>
      if ok then some ({ s with accepted := f :: s.accepted }.setStage w (.unlink f false))
      else some (s.setStage w .next)
    | _ => none
  | .unlink w ok =>
    match (s.loops w).stage with
    | .unlink f caught => some (unlink s w f caught ok)
    | _ => none
  | .fail w =>
    match (s.loops w).stage with
    | .next | .read _ _ => some (s.setLoop w ⟨[], .stopped⟩)
    | _ => none
  | .crash => some { s with lastDial := [], loops := fun _ => ⟨[], .next⟩ }

/-- The server starts with these routes, before any file has come. -/
def start (routes : List (Address × Path)) : State :=
  ⟨[], routes, [], fun _ => ⟨[], .next⟩, [], [], [], [], [], [routes]⟩

/-! ## What was delivered -/

/-- The maildir is the mailbox of the recipient, or, for a file of an outbox whose recipient has
none here, of the address inside the recipient. -/
def Destination (c : Setup) (s : State) (f : Path) (raw : Bytes) (dest : Path) : Prop :=
  ∃ routes ∈ s.history, parseRecipient c.py raw ≠ [] ∧
    (Table.get routes (parseRecipient c.py raw) = some dest ∨
      belongs c .outboxes f ∧ Table.get routes (parseRecipient c.py raw) = none ∧
        Table.get routes (parseDeliveryAddress c.py c.domains (parseRecipient c.py raw)).1 = some dest)

/-- The mail of a file was put whole into `new` of its mailbox, or accepted by another site. -/
def Delivered (c : Setup) (s : State) (f : Path) (raw : Bytes) : Prop :=
  (∃ x ∈ s.placed, x.source = f ∧ x.raw = raw ∧ (∃ name, x.path = newPath x.maildir name) ∧
    Destination c s f raw x.maildir) ∨ f ∈ s.accepted

/-- The file has no way to go. -/
def Unroutable (c : Setup) (routes : List (Address × Path)) (env : Env) (f : Path) (raw : Bytes) :
    Which → Prop
  | .outboxes =>
    let rcpt := parseRecipient c.py raw
    let delivery := parseDeliveryAddress c.py c.domains rcpt
    rcpt = [] ∨ Table.get routes rcpt = none ∧
      (delivery.1 = [] ∨ delivery.2 ∈ env.mine ∧ Table.get routes delivery.1 = none)
  | .pickup =>
    (pickupDomain c f ∈ env.mine ∨ pickupDomain c f ∈ env.advertised) ∧
      (parseRecipient c.py raw = [] ∨ Table.get routes (parseRecipient c.py raw) = none)

variable {c : Setup} {s t : State}

/-- What a step can do. -/
inductive Step (c : Setup) (s : State) : Event → State → Prop
  | put {dir : Path} {name raw : Bytes} (hfresh : name ∉ s.used) :
    Step c s (.put dir name raw) (addFile c s (dir ++ [name]) name raw)
  | setRoutes (routes : List (Address × Path)) :
    Step c s (.setRoutes routes) { s with routes := routes, history := routes :: s.history }
  | remove {path : Path} (hpath : ¬ isSource c path) :
    Step c s (.remove path) { s with files := Table.del s.files path }
  | list {w : Which} {listing : List Path} (hlisting : ∀ f ∈ listing, belongs c w f) :
    Step c s (.list w listing) (s.setLoop w ⟨listing, .next⟩)
  | read {w : Which} {f : Path} {queue : List Path} {raw : Bytes}
    (hqueue : (s.loops w).queue = f :: queue) (hget : Table.get s.files f = some raw) :
    Step c s (.read w) (s.setLoop w ⟨queue, .read f raw⟩)
  /-- The file is there no more. -/
  | skip {w : Which} {f : Path} {queue : List Path} (hqueue : (s.loops w).queue = f :: queue) :
    Step c s (.read w) (s.setLoop w ⟨queue, .next⟩)
  | route {w : Which} {f : Path} {raw : Bytes} (hstage : (s.loops w).stage = .read f raw) (env : Env) :
    Step c s (.route w env) (route c s w env f raw)
  | write {w : Which} {f : Path} {raw : Bytes} {dest : Path} {name : Bytes}
    (hstage : (s.loops w).stage = .deliver f raw dest) (hfresh : name ∉ s.used) (how : Writing) :
    Step c s (.write w name how) (write c s w name f raw dest how)
  | rename {w : Which} {f : Path} {raw : Bytes} {dest : Path} {name : Bytes}
    (hstage : (s.loops w).stage = .written f raw dest name) :
    Step c s (.rename w true) (rename c s w f dest name)
  | dialed {w : Which} {f : Path} {raw host rcpt : Bytes}
    (hstage : (s.loops w).stage = .dial f raw host rcpt) :
    Step c s (.dialed w true) ({ s with accepted := f :: s.accepted }.setStage w (.unlink f false))
  /-- What was begun for a file has failed. -/
  | giveUp {e : Event} {w : Which} (he : e = .rename w false ∨ e = .dialed w false) :
    Step c s e (s.setStage w .next)
  | unlink {w : Which} {f : Path} {caught : Bool} (hstage : (s.loops w).stage = .unlink f caught)
    (ok : Bool) : Step c s (.unlink w ok) (unlink s w f caught ok)
  | fail (w : Which) : Step c s (.fail w) (s.setLoop w ⟨[], .stopped⟩)
  | crash : Step c s .crash { s with lastDial := [], loops := fun _ => ⟨[], .next⟩ }

theorem step_spec {e : Event} (h : step c s e = some t) : Step c s e t := by
  cases e with
  | put dir name raw =>
    simp only [step] at h
    split_ifs at h with hused
    exact Option.some.inj h ▸ .put hused
  | setRoutes routes => exact Option.some.inj h ▸ .setRoutes routes
  | remove path =>
    simp only [step] at h
    split_ifs at h with hpath
    exact Option.some.inj h ▸ .remove hpath
  | list w listing =>
    simp only [step] at h
    split_ifs at h with hen
    exact Option.some.inj h ▸ .list fun f hf => (hen.2.2 f hf).1
  | read w =>
    simp only [step] at h
    split at h
    next f queue _ hqueue =>
      cases hget : Table.get s.files f with
      | some raw =>
        rw [hget] at h
        exact Option.some.inj h ▸ .read hqueue hget
      | none =>
        rw [hget] at h
        exact Option.some.inj h ▸ .skip hqueue
    · cases h
  | route w env =>
    simp only [step] at h
    split at h
    next hstage => exact Option.some.inj h ▸ .route hstage env
    · cases h
  | write w name how =>
    simp only [step] at h
    split at h
    next hstage =>
      split_ifs at h with hused
      exact Option.some.inj h ▸ .write hstage hused how
    · cases h
  | rename w ok =>
    simp only [step] at h
    split at h
    next hstage =>
      cases ok with
      | true => exact Option.some.inj h ▸ .rename hstage
      | false => exact Option.some.inj h ▸ .giveUp (Or.inl rfl)
    · cases h
  | dialed w ok =>
    simp only [step] at h
    split at h
    next hstage =>
      cases ok with
      | true => exact Option.some.inj h ▸ .dialed hstage
      | false => exact Option.some.inj h ▸ .giveUp (Or.inr rfl)
    · cases h
  | unlink w ok =>
    simp only [step] at h
    split at h
    next hstage => exact Option.some.inj h ▸ .unlink hstage ok
    · cases h
  | fail w =>
    simp only [step] at h
    split at h
    · exact Option.some.inj h ▸ .fail w
    · exact Option.some.inj h ▸ .fail w
    · cases h
  | crash => exact Option.some.inj h ▸ .crash

/-- A file is kept where it is exactly if it has no way to go. -/
theorem plan_keep_iff (routes : List (Address × Path)) (env : Env) (w : Which) (f : Path) (raw : Bytes) :
    plan c routes env w f raw = .keep ↔ Unroutable c routes env f raw w := by
  cases w with
  | outboxes =>
    simp only [plan, outboxPlan, Unroutable]
    by_cases hrcpt : parseRecipient c.py raw = []
    · simp [hrcpt]
    · cases hroute : Table.get routes (parseRecipient c.py raw) with
      | some dest => simp [hrcpt]
      | none =>
        by_cases hinner : (parseDeliveryAddress c.py c.domains (parseRecipient c.py raw)).1 = []
        · simp [hrcpt, hinner]
        · by_cases hhost : (parseDeliveryAddress c.py c.domains (parseRecipient c.py raw)).2 ∈ env.mine
          · cases Table.get routes (parseDeliveryAddress c.py c.domains (parseRecipient c.py raw)).1 <;>
              simp [hrcpt, hinner, hhost]
          · simp [hrcpt, hinner, hhost]
  | pickup =>
    simp only [plan, pickupPlan, Unroutable]
    by_cases hhost : pickupDomain c f ∈ env.mine ∨ pickupDomain c f ∈ env.advertised
    · by_cases hrcpt : parseRecipient c.py raw = []
      · simp [hhost, hrcpt]
      · cases Table.get routes (parseRecipient c.py raw) <;> simp [hhost, hrcpt]
    · simp [hhost]

theorem plan_deliver {w : Which} {env : Env} {f : Path} {raw : Bytes} {dest : Path}
    (hf : belongs c w f) (hroutes : s.routes ∈ s.history)
    (h : plan c s.routes env w f raw = .deliver dest) : Destination c s f raw dest := by
  refine ⟨s.routes, hroutes, ?_⟩
  cases w with
  | outboxes =>
    simp only [plan, outboxPlan] at h
    by_cases hrcpt : parseRecipient c.py raw = []
    · simp [hrcpt] at h
    · refine ⟨hrcpt, ?_⟩
      cases hroute : Table.get s.routes (parseRecipient c.py raw) with
      | some d =>
        rw [if_neg hrcpt, hroute] at h
        exact Or.inl (congrArg some (Plan.deliver.inj h))
      | none =>
        rw [if_neg hrcpt, hroute] at h
        simp only at h
        split_ifs at h with hinner hhost
        cases hlocal : Table.get s.routes
            (parseDeliveryAddress c.py c.domains (parseRecipient c.py raw)).1 with
        | some d =>
          rw [hlocal] at h
          exact Or.inr ⟨hf, rfl, congrArg some (Plan.deliver.inj h)⟩
        | none => simp [hlocal] at h
  | pickup =>
    simp only [plan, pickupPlan] at h
    by_cases hhost : pickupDomain c f ∈ env.mine ∨ pickupDomain c f ∈ env.advertised
    · by_cases hrcpt : parseRecipient c.py raw = []
      · simp [hhost, hrcpt] at h
      · refine ⟨hrcpt, Or.inl ?_⟩
        cases hroute : Table.get s.routes (parseRecipient c.py raw) <;>
          simp [hhost, hrcpt, hroute] at h
        rw [h]
    · simp [hhost] at h

/-! ## The invariant -/

/-- The name of a file that is written and not yet renamed. -/
def Stage.name : Stage → Option Bytes
  | .written _ _ _ name => some name
  | _ => none

/-- What holds of the file that a collector has taken. -/
def StageInv (c : Setup) (s : State) (w : Which) : Stage → Prop
  | .next | .stopped => True
  | .read f raw => (f, raw) ∈ s.arrived ∧ belongs c w f
  | .deliver f raw dest => (f, raw) ∈ s.arrived ∧ f ∈ s.routed ∧ Destination c s f raw dest
  | .written f raw dest name => ((f, raw) ∈ s.arrived ∧ f ∈ s.routed ∧ Destination c s f raw dest) ∧
      name ∈ s.used ∧ (∀ x ∈ s.arrived, x.1.getLast? ≠ some name) ∧
      ∀ b, Table.get s.files (tmpPath dest name) = some b → b = raw
  | .dial f raw _ _ => (f, raw) ∈ s.arrived ∧ f ∈ s.routed
  | .unlink f _ => ∃ raw, (f, raw) ∈ s.arrived ∧ f ∈ s.routed ∧ Delivered c s f raw

/-- What holds of the files: those in the source directories are the ones that have arrived there,
and one that is gone was routed and delivered. -/
structure Kept (c : Setup) (s : State) : Prop where
  named : ∀ x ∈ s.arrived, ∃ name ∈ s.used, x.1.getLast? = some name
  source : ∀ x ∈ s.arrived, isSource c x.1
  unique : ∀ x ∈ s.arrived, ∀ y ∈ s.arrived, x.1 = y.1 → x = y
  known : ∀ f b, isSource c f → Table.get s.files f = some b → (f, b) ∈ s.arrived
  current : s.routes ∈ s.history
  safe : ∀ x ∈ s.arrived, Table.get s.files x.1 = some x.2 ∨ x.1 ∈ s.routed ∧ Delivered c s x.1 x.2

structure Inv (c : Setup) (s : State) : Prop extends Kept c s where
  stage : ∀ w, StageInv c s w (s.loops w).stage
  queue : ∀ w, ∀ f ∈ (s.loops w).queue, belongs c w f
  distinct : ∀ w w' name, (s.loops w).stage.name = some name → (s.loops w').stage.name = some name →
    w = w'

/-- The logs of `s'` go on those of `s`; only files with the names in `touched` are new. -/
structure Extends (touched : List Bytes) (s s' : State) : Prop where
  arrived : s.arrived ⊆ s'.arrived
  fresh : ∀ x ∈ s'.arrived, x ∈ s.arrived ∨ ∃ name ∈ touched, x.1.getLast? = some name
  used : s.used ⊆ s'.used
  routed : s.routed ⊆ s'.routed
  placed : s.placed ⊆ s'.placed
  accepted : s.accepted ⊆ s'.accepted
  history : s.history ⊆ s'.history
  files : ∀ f b, Table.get s'.files f = some b →
    Table.get s.files f = some b ∨ ∃ name ∈ touched, f.getLast? = some name

theorem Destination.mono (h : s.history ⊆ t.history) {f dest : Path} {raw : Bytes}
    (hd : Destination c s f raw dest) : Destination c t f raw dest := by
  obtain ⟨routes, hroutes, hdest⟩ := hd
  exact ⟨routes, h hroutes, hdest⟩

theorem Delivered.mono {touched : List Bytes} (h : Extends touched s t) {f : Path} {raw : Bytes}
    (hd : Delivered c s f raw) : Delivered c t f raw := by
  rcases hd with ⟨x, hx, hsource, hraw, hpath, hdest⟩ | haccepted
  · exact Or.inl ⟨x, h.placed hx, hsource, hraw, hpath, hdest.mono h.history⟩
  · exact Or.inr (h.accepted haccepted)

/-- A stage is not disturbed by files with other names than its own. -/
theorem StageInv.mono {touched : List Bytes} (h : Extends touched s t) {w : Which} {stage : Stage}
    (hname : ∀ name, stage.name = some name → name ∉ touched) (hs : StageInv c s w stage) :
    StageInv c t w stage := by
  cases stage with
  | next => trivial
  | stopped => trivial
  | read f raw => exact ⟨h.arrived hs.1, hs.2⟩
  | deliver f raw dest => exact ⟨h.arrived hs.1, h.routed hs.2.1, hs.2.2.mono h.history⟩
  | written f raw dest name =>
    obtain ⟨⟨harrived, hrouted, hdest⟩, hused, hother, htmp⟩ := hs
    have hown : name ∉ touched := hname name rfl
    refine ⟨⟨h.arrived harrived, h.routed hrouted, hdest.mono h.history⟩, h.used hused,
      fun x hx hlast => ?_, fun b hb => ?_⟩
    · rcases h.fresh x hx with hx | ⟨n, hn, hxn⟩
      · exact hother x hx hlast
      · exact hown (Option.some.inj (hlast.symm.trans hxn) ▸ hn)
    · rcases h.files _ b hb with hb | ⟨n, hn, hlast⟩
      · exact htmp b hb
      · have htail : (tmpPath dest name).getLast? = some name := by simp [tmpPath]
        exact absurd hn (Option.some.inj (htail.symm.trans hlast) ▸ hown)
  | dial f raw host rcpt => exact ⟨h.arrived hs.1, h.routed hs.2⟩
  | unlink f caught =>
    obtain ⟨raw, harrived, hrouted, hdel⟩ := hs
    exact ⟨raw, h.arrived harrived, h.routed hrouted, hdel.mono h⟩

theorem Extends.refl (s : State) : Extends [] s s where
  arrived := fun _ h => h
  fresh := fun _ h => Or.inl h
  used := fun _ h => h
  routed := fun _ h => h
  placed := fun _ h => h
  accepted := fun _ h => h
  history := fun _ h => h
  files := fun _ _ h => Or.inl h

theorem inv_start (c : Setup) (routes : List (Address × Path)) : Inv c (start routes) where
  named := by simp [start]
  source := by simp [start]
  unique := by simp [start]
  known := by simp [start]
  current := by simp [start]
  safe := by simp [start]
  stage _ := trivial
  queue := by simp [start]
  distinct := by simp [start, Stage.name]

/-- A change of the files and the logs that no collector is disturbed by. -/
theorem inv_shared (hs : Inv c s) {touched : List Bytes} (hloops : t.loops = s.loops)
    (hkept : Kept c t) (hext : Extends touched s t)
    (hnames : ∀ w name, (s.loops w).stage.name = some name → name ∉ touched) : Inv c t where
  toKept := hkept
  stage w := by
    rw [hloops]
    exact (hs.stage w).mono hext (hnames w)
  queue := hloops ▸ hs.queue
  distinct := hloops ▸ hs.distinct

/-- One collector goes on, with a change of the files and the logs that the other is not disturbed
by. -/
theorem inv_setLoop (hs : Inv c s) {touched : List Bytes} {w : Which} {l : Loop}
    (hloops : t.loops = s.loops) (hkept : Kept c t) (hext : Extends touched s t)
    (hnames : ∀ w' ≠ w, ∀ name, (s.loops w').stage.name = some name → name ∉ touched)
    (hstage : StageInv c t w l.stage) (hqueue : ∀ f ∈ l.queue, belongs c w f)
    (hname : ∀ name, l.stage.name = some name → ∀ w' ≠ w, (s.loops w').stage.name ≠ some name) :
    Inv c (t.setLoop w l) := by
  have hself : (t.setLoop w l).loops w = l := by simp only [State.setLoop, Function.update_self]
  have hother : ∀ w' ≠ w, (t.setLoop w l).loops w' = s.loops w' := fun w' hw' => by
    rw [← hloops]
    simp only [State.setLoop, Function.update_of_ne hw']
  refine ⟨⟨hkept.named, hkept.source, hkept.unique, hkept.known, hkept.current, hkept.safe⟩,
    fun w' => ?_, fun w' => ?_, fun w₁ w₂ name h₁ h₂ => ?_⟩
  · by_cases hw' : w' = w
    · subst hw'
      rw [hself]
      exact hstage
    · rw [hother w' hw']
      exact (hs.stage w').mono hext (hnames w' hw')
  · by_cases hw' : w' = w
    · subst hw'
      rw [hself]
      exact hqueue
    · rw [hother w' hw']
      exact hs.queue w'
  · by_cases hw₁ : w₁ = w
    · by_cases hw₂ : w₂ = w
      · exact hw₁.trans hw₂.symm
      · rw [hw₁, hself] at h₁
        rw [hother w₂ hw₂] at h₂
        exact absurd h₂ (hname name h₁ w₂ hw₂)
    · rw [hother w₁ hw₁] at h₁
      by_cases hw₂ : w₂ = w
      · rw [hw₂, hself] at h₂
        exact absurd h₁ (hname name h₂ w₁ hw₁)
      · rw [hother w₂ hw₂] at h₂
        exact hs.distinct w₁ w₂ name h₁ h₂

/-! ## Files -/

theorem last_of_isSource {f : Path} (h : isSource c f) : f.dropLast.getLast? = some (ascii "new") := by
  simp only [isSource, Bool.or_eq_true, belongs] at h
  rcases h with h | h
  · obtain ⟨outbox, -, h⟩ := List.any_eq_true.1 h
    rw [of_decide_eq_true h]
    simp
  · cases hbase : c.pickupBase with
    | none => simp [hbase] at h
    | some base =>
      simp only [hbase, Option.any_some, Bool.and_eq_true, decide_eq_true_eq] at h
      exact h.2

/-- No file in a `tmp` is in a source directory. -/
theorem not_isSource_tmpPath (dest : Path) (name : Bytes) : ¬ isSource c (tmpPath dest name) := by
  intro h
  have hlast := last_of_isSource h
  have htmp : (tmpPath dest name).dropLast.getLast? = some (ascii "tmp") := by
    have hsplit : tmpPath dest name = (dest ++ [ascii "tmp"]) ++ [name] := by simp [tmpPath]
    rw [hsplit, List.dropLast_concat]
    simp
  exact absurd (Option.some.inj (htmp.symm.trans hlast)) (by decide)

/-- A file whose directory entry has not changed is as safe as it was. -/
theorem safe_mono {touched : List Bytes} (h : Extends touched s t) {x : Path × Bytes}
    (hfile : Table.get s.files x.1 = some x.2 → Table.get t.files x.1 = some x.2)
    (hx : Table.get s.files x.1 = some x.2 ∨ x.1 ∈ s.routed ∧ Delivered c s x.1 x.2) :
    Table.get t.files x.1 = some x.2 ∨ x.1 ∈ t.routed ∧ Delivered c t x.1 x.2 := by
  rcases hx with hx | ⟨hrouted, hdel⟩
  · exact Or.inl (hfile hx)
  · exact Or.inr ⟨h.routed hrouted, hdel.mono h⟩

theorem extends_addFile {f : Path} {name : Bytes} (hlast : f.getLast? = some name) (b : Bytes) :
    Extends [name] s (addFile c s f name b) where
  arrived := by
    unfold addFile
    split_ifs
    · exact List.subset_cons_self _ _
    · exact fun _ h => h
  fresh x hx := by
    simp only [addFile] at hx
    split_ifs at hx
    · rcases List.mem_cons.1 hx with rfl | hx
      · exact Or.inr ⟨name, List.mem_singleton.2 rfl, hlast⟩
      · exact Or.inl hx
    · exact Or.inl hx
  used := List.subset_cons_self _ _
  routed := fun _ h => h
  placed := fun _ h => h
  accepted := fun _ h => h
  history := fun _ h => h
  files g d hg := by
    by_cases hfg : f = g
    · exact Or.inr ⟨name, List.mem_singleton.2 rfl, hfg ▸ hlast⟩
    · exact Or.inl (by rwa [addFile, Table.get_put_of_ne hfg] at hg)

theorem kept_addFile (hs : Kept c s) {f : Path} {name : Bytes} (hlast : f.getLast? = some name)
    (hfresh : ∀ x ∈ s.arrived, x.1 ≠ f) (b : Bytes) : Kept c (addFile c s f name b) := by
  have hmem : ∀ x ∈ (addFile c s f name b).arrived, x ∈ s.arrived ∨ isSource c f ∧ x = (f, b) := by
    intro x hx
    simp only [addFile] at hx
    split_ifs at hx with hf
    · exact (List.mem_cons.1 hx).elim (fun h => Or.inr ⟨hf, h⟩) Or.inl
    · exact Or.inl hx
  constructor
  case named =>
    intro x hx
    rcases hmem x hx with hx | ⟨-, rfl⟩
    · obtain ⟨n, hn, hxn⟩ := hs.named x hx
      exact ⟨n, List.mem_cons_of_mem _ hn, hxn⟩
    · exact ⟨name, List.mem_cons_self, hlast⟩
  case source =>
    intro x hx
    rcases hmem x hx with hx | ⟨hf, rfl⟩
    · exact hs.source x hx
    · exact hf
  case unique =>
    intro x hx y hy hxy
    rcases hmem x hx with hx | ⟨-, rfl⟩
    · rcases hmem y hy with hy | ⟨-, rfl⟩
      · exact hs.unique x hx y hy hxy
      · exact absurd hxy (hfresh x hx)
    · rcases hmem y hy with hy | ⟨-, rfl⟩
      · exact absurd hxy.symm (hfresh y hy)
      · rfl
  case known =>
    intro g d hg hget
    rcases Table.get_of_get_put hget with ⟨rfl, rfl⟩ | ⟨-, hget⟩
    · rw [addFile]
      simp only [if_pos hg]
      exact List.mem_cons_self
    · exact (extends_addFile hlast b).arrived (hs.known g d hg hget)
  case current => exact hs.current
  case safe =>
    intro x hx
    rcases hmem x hx with hx | ⟨-, rfl⟩
    · refine safe_mono (extends_addFile hlast b) (fun hfile => ?_) (hs.safe x hx)
      rw [addFile, Table.get_put_of_ne (Ne.symm (hfresh x hx))]
      exact hfile
    · exact Or.inl (Table.get_put_self _ _ _)

/-- A file of no source directory is removed, or one whose mail has been delivered. -/
theorem kept_del (hs : Kept c s) {f : Path}
    (hf : ∀ x ∈ s.arrived, x.1 = f → x.1 ∈ s.routed ∧ Delivered c s x.1 x.2) :
    Kept c { s with files := Table.del s.files f } where
  named := hs.named
  source := hs.source
  unique := hs.unique
  known g d hg hget := hs.known g d hg (Table.get_of_get_del hget).2
  current := hs.current
  safe x hx := by
    by_cases hxf : x.1 = f
    · exact Or.inr (hf x hx hxf)
    · rw [Table.get_del_of_ne (Ne.symm hxf)]
      exact hs.safe x hx

theorem extends_del (f : Path) : Extends [] s { s with files := Table.del s.files f } :=
  { Extends.refl s with files := fun _ _ h => Or.inl (Table.get_of_get_del h).2 }

/-- The logs of deliveries and the routes grow. -/
theorem kept_log (hs : Kept c s) (hfiles : t.files = s.files) (harrived : t.arrived = s.arrived)
    (hext : Extends [] s t) (hcurrent : t.routes ∈ t.history) : Kept c t where
  named x hx := by
    obtain ⟨n, hn, hxn⟩ := hs.named x (harrived ▸ hx)
    exact ⟨n, hext.used hn, hxn⟩
  source := harrived ▸ hs.source
  unique := harrived ▸ hs.unique
  known f b hf hget := harrived ▸ hs.known f b hf (hfiles ▸ hget)
  current := hcurrent
  safe x hx := safe_mono hext (fun hfile => hfiles ▸ hfile) (hs.safe x (harrived ▸ hx))

theorem Extends.trans {a b : List Bytes} {u : State} (h : Extends a s t) (h' : Extends b t u) :
    Extends (a ++ b) s u where
  arrived := List.Subset.trans h.arrived h'.arrived
  fresh x hx := by
    rcases h'.fresh x hx with hx | ⟨name, hname, hlast⟩
    · rcases h.fresh x hx with hx | ⟨name, hname, hlast⟩
      · exact Or.inl hx
      · exact Or.inr ⟨name, List.mem_append_left _ hname, hlast⟩
    · exact Or.inr ⟨name, List.mem_append_right _ hname, hlast⟩
  used := List.Subset.trans h.used h'.used
  routed := List.Subset.trans h.routed h'.routed
  placed := List.Subset.trans h.placed h'.placed
  accepted := List.Subset.trans h.accepted h'.accepted
  history := List.Subset.trans h.history h'.history
  files f d hd := by
    rcases h'.files f d hd with hd | ⟨name, hname, hlast⟩
    · rcases h.files f d hd with hd | ⟨name, hname, hlast⟩
      · exact Or.inl hd
      · exact Or.inr ⟨name, List.mem_append_left _ hname, hlast⟩
    · exact Or.inr ⟨name, List.mem_append_right _ hname, hlast⟩

/-! ## The steps keep it -/

/-- A name that a collector writes under is given out. -/
theorem used_of_name (hs : Inv c s) {w : Which} {name : Bytes}
    (h : (s.loops w).stage.name = some name) : name ∈ s.used := by
  have hst := hs.stage w
  cases hstage : (s.loops w).stage with
  | written f raw dest n =>
    rw [hstage] at h hst
    obtain rfl := Option.some.inj h
    exact hst.2.1
  | _ => simp [hstage, Stage.name] at h

theorem ne_of_fresh (hs : Inv c s) {name : Bytes} (hfresh : name ∉ s.used) {f : Path}
    (hlast : f.getLast? = some name) : ∀ x ∈ s.arrived, x.1 ≠ f := by
  rintro x hx rfl
  obtain ⟨n, hn, hxn⟩ := hs.named x hx
  exact hfresh (Option.some.inj (hlast.symm.trans hxn) ▸ hn)

/-- A collector goes on, and nothing else changes. -/
theorem inv_loop (hs : Inv c s) {w : Which} {l : Loop} (hstage : StageInv c s w l.stage)
    (hname : l.stage.name = none) (hqueue : ∀ f ∈ l.queue, belongs c w f) : Inv c (s.setLoop w l) :=
  inv_setLoop hs rfl hs.toKept (Extends.refl s) (fun _ _ _ _ => List.not_mem_nil) hstage hqueue
    (by simp [hname])

theorem inv_next (hs : Inv c s) (w : Which) : Inv c (s.setStage w .next) :=
  inv_loop hs trivial rfl (hs.queue w)

/-- A collector goes on, and a decision or an answer is logged. -/
theorem inv_log (hs : Inv c s) {w : Which} {l : Loop} (hloops : t.loops = s.loops)
    (hfiles : t.files = s.files) (harrived : t.arrived = s.arrived) (hroutes : t.routes = s.routes)
    (hext : Extends [] s t) (hstage : StageInv c t w l.stage) (hname : l.stage.name = none)
    (hqueue : l.queue = (s.loops w).queue) : Inv c (t.setLoop w l) := by
  have hcurrent : t.routes ∈ t.history := hroutes ▸ hext.history hs.current
  exact inv_setLoop hs hloops (kept_log hs.toKept hfiles harrived hext hcurrent) hext
    (fun _ _ _ _ => List.not_mem_nil) hstage (hqueue ▸ hs.queue w) (by simp [hname])

theorem inv_put (hs : Inv c s) {dir : Path} {name : Bytes} (hfresh : name ∉ s.used) (raw : Bytes) :
    Inv c (addFile c s (dir ++ [name]) name raw) := by
  have hlast : (dir ++ [name]).getLast? = some name := by simp
  refine inv_shared hs rfl (kept_addFile hs.toKept hlast (ne_of_fresh hs hfresh hlast) raw)
    (extends_addFile hlast raw) fun w n hn hmem => ?_
  exact hfresh (List.mem_singleton.1 hmem ▸ used_of_name hs hn)

theorem inv_route (hs : Inv c s) {w : Which} {f : Path} {raw : Bytes}
    (hstage : (s.loops w).stage = .read f raw) (env : Env) : Inv c (route c s w env f raw) := by
  have hread := hs.stage w
  rw [hstage] at hread
  obtain ⟨harrived, hf⟩ := hread
  have hext : ∀ lastDial, Extends [] s { s with routed := f :: s.routed, lastDial := lastDial } :=
    fun _ => { Extends.refl s with routed := List.subset_cons_self _ _ }
  unfold route
  cases hplan : plan c s.routes env w f raw with
  | keep => exact inv_next hs w
  | deliver dest =>
    refine inv_log hs rfl rfl rfl rfl (hext s.lastDial) ⟨harrived, List.mem_cons_self, ?_⟩ rfl rfl
    exact plan_deliver hf hs.current hplan
  | dial host rcpt =>
    simp only
    split_ifs
    · exact inv_log hs rfl rfl rfl rfl (hext s.lastDial) trivial rfl rfl
    · exact inv_log hs rfl rfl rfl rfl (hext _) ⟨harrived, List.mem_cons_self⟩ rfl rfl

theorem inv_write (hs : Inv c s) {w : Which} {f : Path} {raw : Bytes} {dest : Path} {name : Bytes}
    (hstage : (s.loops w).stage = .deliver f raw dest) (hfresh : name ∉ s.used) (how : Writing) :
    Inv c (write c s w name f raw dest how) := by
  have hdeliver := hs.stage w
  rw [hstage] at hdeliver
  obtain ⟨harrived, hrouted, hdest⟩ := hdeliver
  have hlast : (tmpPath dest name).getLast? = some name := by simp [tmpPath]
  have hkept : ∀ b, Kept c (addFile c s (tmpPath dest name) name b) := fun b =>
    kept_addFile hs.toKept hlast (ne_of_fresh hs hfresh hlast) b
  have hnames : ∀ w' ≠ w, ∀ n, (s.loops w').stage.name = some n → n ∉ [name] := fun w' _ n hn hmem =>
    hfresh (List.mem_singleton.1 hmem ▸ used_of_name hs hn)
  cases how with
  | whole =>
    have hext := extends_addFile (c := c) (s := s) hlast raw
    refine inv_setLoop hs rfl (hkept raw) hext hnames ?_ (hs.queue w) ?_
    · refine ⟨⟨hext.arrived harrived, hrouted, hdest⟩, List.mem_cons_self, fun x hx hxn => ?_,
        fun b hb => ?_⟩
      · simp only [addFile, if_neg (not_isSource_tmpPath dest name)] at hx
        exact ne_of_fresh hs hfresh hxn x hx rfl
      · rw [addFile, Table.get_put_self] at hb
        exact (Option.some.inj hb).symm
    · rintro n hn w' - hn'
      obtain rfl := Option.some.inj hn
      exact hfresh (used_of_name hs hn')
  | part n =>
    exact inv_setLoop hs rfl (hkept _) (extends_addFile hlast _) hnames trivial (hs.queue w)
      (fun _ hn => by cases hn)
  | failed => exact inv_next hs w

theorem inv_rename (hs : Inv c s) {w : Which} {f : Path} {raw : Bytes} {dest : Path} {name : Bytes}
    (hstage : (s.loops w).stage = .written f raw dest name) : Inv c (rename c s w f dest name) := by
  have hwritten := hs.stage w
  rw [hstage] at hwritten
  obtain ⟨⟨harrived, hrouted, hdest⟩, hused, hother, htmp⟩ := hwritten
  unfold rename
  cases hget : Table.get s.files (tmpPath dest name) with
  | none => exact inv_next hs w
  | some content =>
    obtain rfl := htmp content hget
    have hlast : (newPath dest name).getLast? = some name := by simp [newPath]
    have hgone : Kept c { s with files := Table.del s.files (tmpPath dest name) } :=
      kept_del hs.toKept fun x hx hxf => absurd (hxf ▸ hs.source x hx) (not_isSource_tmpPath dest name)
    have hmoved := kept_addFile hgone hlast (fun x hx he => hother x hx (he ▸ hlast)) content
    have hadd := (extends_del (s := s) (tmpPath dest name)).trans
      (extends_addFile (c := c) hlast content)
    have hplaced : Extends [] (addFile c { s with files := Table.del s.files (tmpPath dest name) }
        (newPath dest name) name content)
        { addFile c { s with files := Table.del s.files (tmpPath dest name) } (newPath dest name) name
            content with placed := ⟨f, newPath dest name, content, dest⟩ :: s.placed } :=
      { Extends.refl _ with placed := List.subset_cons_self _ _ }
    refine inv_setLoop hs rfl (kept_log hmoved rfl rfl hplaced hs.current) (hadd.trans hplaced) ?_ ?_
      (hs.queue w) (fun _ hn => by cases hn)
    · intro w' hw' n hn hmem
      obtain rfl : n = name := by simpa using hmem
      exact hw' (hs.distinct w' w n hn (by rw [hstage]; rfl))
    · refine ⟨content, (hadd.trans hplaced).arrived harrived, hrouted, Or.inl ?_⟩
      exact ⟨_, List.mem_cons_self, rfl, rfl, ⟨name, rfl⟩, hdest⟩

theorem inv_unlink (hs : Inv c s) {w : Which} {f : Path} {caught : Bool}
    (hstage : (s.loops w).stage = .unlink f caught) (ok : Bool) : Inv c (unlink s w f caught ok) := by
  have hunlink := hs.stage w
  rw [hstage] at hunlink
  obtain ⟨raw, harrived, hrouted, hdel⟩ := hunlink
  unfold unlink
  split_ifs
  · refine inv_setLoop hs rfl (kept_del hs.toKept fun x hx hxf => ?_) (extends_del f)
      (fun _ _ _ _ => List.not_mem_nil) trivial (hs.queue w) (fun _ hn => by cases hn)
    obtain rfl := hs.unique x hx (f, raw) harrived hxf
    exact ⟨hrouted, hdel⟩
  · exact inv_next hs w
  · exact inv_loop hs trivial rfl (by simp)

theorem inv_setRoutes (hs : Inv c s) (routes : List (Address × Path)) :
    Inv c { s with routes := routes, history := routes :: s.history } := by
  have hext : Extends [] s { s with routes := routes, history := routes :: s.history } :=
    { Extends.refl s with history := List.subset_cons_self _ _ }
  exact inv_shared hs rfl (kept_log hs.toKept rfl rfl hext List.mem_cons_self) hext
    fun _ _ _ => List.not_mem_nil

theorem inv_read (hs : Inv c s) {w : Which} {f : Path} {queue : List Path} {raw : Bytes}
    (hqueue : (s.loops w).queue = f :: queue) (hget : Table.get s.files f = some raw) :
    Inv c (s.setLoop w ⟨queue, .read f raw⟩) := by
  have hbelongs : ∀ g ∈ f :: queue, belongs c w g := hqueue ▸ hs.queue w
  have hf := hbelongs f List.mem_cons_self
  have hsource : isSource c f := by cases w <;> simp [isSource, hf]
  exact inv_loop hs ⟨hs.known f raw hsource hget, hf⟩ rfl fun g hg =>
    hbelongs g (List.mem_cons_of_mem f hg)

theorem inv_dialed (hs : Inv c s) {w : Which} {f : Path} {raw host rcpt : Bytes}
    (hstage : (s.loops w).stage = .dial f raw host rcpt) :
    Inv c ({ s with accepted := f :: s.accepted }.setStage w (.unlink f false)) := by
  have hdial := hs.stage w
  rw [hstage] at hdial
  have hext : Extends [] s { s with accepted := f :: s.accepted } :=
    { Extends.refl s with accepted := List.subset_cons_self _ _ }
  refine inv_log hs rfl rfl rfl rfl hext ?_ rfl rfl
  exact ⟨raw, hdial.1, hdial.2, Or.inr List.mem_cons_self⟩

theorem inv_step (s : State) (e : Event) (s' : State) (hs : Inv c s) (h : step c s e = some s') :
    Inv c s' := by
  cases step_spec h with
  | put hfresh => exact inv_put hs hfresh _
  | setRoutes routes => exact inv_setRoutes hs routes
  | @remove path hpath =>
    exact inv_shared hs rfl (kept_del hs.toKept fun x hx he => absurd (he ▸ hs.source x hx) hpath)
      (extends_del path) fun _ _ _ => List.not_mem_nil
  | list hlisting => exact inv_loop hs trivial rfl hlisting
  | read hqueue hget => exact inv_read hs hqueue hget
  | @skip w f queue hqueue =>
    refine inv_loop hs trivial rfl fun g hg => hs.queue w g ?_
    rw [hqueue]
    exact List.mem_cons_of_mem f hg
  | route hstage env => exact inv_route hs hstage env
  | write hstage hfresh how => exact inv_write hs hstage hfresh how
  | rename hstage => exact inv_rename hs hstage
  | dialed hstage => exact inv_dialed hs hstage
  | giveUp _ => exact inv_next hs _
  | unlink hstage ok => exact inv_unlink hs hstage ok
  | fail w => exact inv_loop hs trivial rfl fun _ hf => absurd hf List.not_mem_nil
  | crash =>
    exact ⟨⟨hs.named, hs.source, hs.unique, hs.known, hs.current, hs.safe⟩, fun _ => trivial,
      fun _ _ hf => (List.not_mem_nil hf).elim, fun _ _ _ hn => by cases hn⟩

/-! ## Whole runs -/

/-- Where the file is looked at, it has no way to go. -/
def FoundUnroutable (c : Setup) (f : Path) (s : State) : Event → Prop
  | .route w env => match (s.loops w).stage with
    | .read g raw => g = f → Unroutable c s.routes env g raw w
    | _ => True
  | _ => True

instance (routes : List (Address × Path)) (env : Env) (f : Path) (raw : Bytes) (w : Which) :
    Decidable (Unroutable c routes env f raw w) := by
  unfold Unroutable
  split <;> infer_instance

instance (f : Path) (s : State) (e : Event) : Decidable (FoundUnroutable c f s e) := by
  unfold FoundUnroutable
  split
  · split <;> infer_instance
  · infer_instance

theorem logs_write (s : State) (w : Which) (name : Bytes) (f : Path) (raw : Bytes) (dest : Path)
    (how : Writing) : (write c s w name f raw dest how).routed = s.routed ∧
      (write c s w name f raw dest how).placed = s.placed := by
  cases how <;> exact ⟨rfl, rfl⟩

theorem logs_unlink (s : State) (w : Which) (f : Path) (caught ok : Bool) :
    (unlink s w f caught ok).routed = s.routed ∧ (unlink s w f caught ok).placed = s.placed := by
  unfold unlink
  split_ifs <;> exact ⟨rfl, rfl⟩

/-- A decision and a renaming are logged, and no other step. -/
theorem step_logs {e : Event} (h : step c s e = some t) :
    (t.routed = s.routed ∧ t.placed = s.placed) ∨
    (∃ w env f raw, e = .route w env ∧ (s.loops w).stage = .read f raw ∧ t = route c s w env f raw) ∨
    ∃ w f dest name, t = rename c s w f dest name := by
  cases step_spec h with
  | route hstage env => exact Or.inr (Or.inl ⟨_, env, _, _, rfl, hstage, rfl⟩)
  | rename hstage => exact Or.inr (Or.inr ⟨_, _, _, _, rfl⟩)
  | write hstage hfresh how => exact Or.inl (logs_write s _ _ _ _ _ how)
  | unlink hstage ok => exact Or.inl (logs_unlink s _ _ _ ok)
  | _ => exact Or.inl ⟨rfl, rfl⟩

/-- A mail is logged as placed when its file is there. -/
theorem placed_step (s : State) (e : Event) (t : State) (h : step c s e = some t) :
    ∀ x, x ∈ t.placed → x ∈ s.placed ∨ Table.get t.files x.path = some x.raw := by
  intro x hx
  rcases step_logs h with ⟨-, hplaced⟩ | ⟨w, env, f, raw, -, -, rfl⟩ | ⟨w, f, dest, name, rfl⟩
  · exact Or.inl (hplaced ▸ hx)
  · have hplaced : (route c s w env f raw).placed = s.placed := by
      unfold route
      split
      · rfl
      · rfl
      · split_ifs <;> rfl
    exact Or.inl (hplaced ▸ hx)
  · unfold rename at hx ⊢
    cases hget : Table.get s.files (tmpPath dest name) with
    | none =>
      rw [hget] at hx
      exact Or.inl hx
    | some content =>
      rw [hget] at hx
      rcases List.mem_cons.1 hx with rfl | hx
      · exact Or.inr (Table.get_put_self _ _ _)
      · exact Or.inl hx

/-- A decision logs no other file than the one that was read, and that one only if it has a way. -/
theorem routed_route {f g : Path} {w : Which} {raw : Bytes} {env : Env} (hs : f ∉ s.routed)
    (hg : g = f → Unroutable c s.routes env g raw w) : f ∉ (route c s w env g raw).routed := by
  have hne : ¬ plan c s.routes env w g raw = .keep → f ∉ g :: s.routed := by
    intro hplan hmem
    rcases List.mem_cons.1 hmem with he | hmem
    · exact hplan ((plan_keep_iff _ env w g raw).2 (hg he.symm))
    · exact hs hmem
  unfold route
  cases hplan : plan c s.routes env w g raw with
  | keep => exact hs
  | deliver dest => exact hne (by simp [hplan])
  | dial host rcpt =>
    simp only
    split_ifs
    · exact hne (by simp [hplan])
    · exact hne (by simp [hplan])

/-- Only a decision to follow a way is logged as one. -/
theorem routed_step {f : Path} (s : State) (e : Event) (s' : State) (hs : f ∉ s.routed)
    (hC : FoundUnroutable c f s e) (h : step c s e = some s') : f ∉ s'.routed := by
  rcases step_logs h with ⟨hrouted, -⟩ | ⟨w, env, g, raw, rfl, hstage, rfl⟩ | ⟨w, g, dest, name, rfl⟩
  · exact hrouted ▸ hs
  · rw [FoundUnroutable, hstage] at hC
    exact routed_route hs hC
  · unfold rename
    split <;> exact hs

/-- At every point of every run, crashes included: a file that has come into a source directory is
still there, or its mail was put whole into `new` of its mailbox, or another site has accepted it;
and where it has no way to go whenever it is looked at, it is still there.  A mail that was put into
a mailbox was there, as a whole, at some point of the run. -/
theorem collectors_lose_nothing {routes : List (Address × Path)} {es : List Event}
    (h : run (step c) (start routes) es = some t) :
    (∀ x ∈ t.arrived, (Table.get t.files x.1 = some x.2 ∨ Delivered c t x.1 x.2) ∧
      (Along (step c) (FoundUnroutable c x.1) (start routes) es →
        Table.get t.files x.1 = some x.2)) ∧
    ∀ y ∈ t.placed, ∃ es' u, es' <+: es ∧ run (step c) (start routes) es' = some u ∧
      Table.get u.files y.path = some y.raw := by
  have ht : Inv c t := run_preserves inv_step (inv_start c routes) h
  refine ⟨fun x hx => ?_, fun y hy => ?_⟩
  · refine ⟨(ht.safe x hx).imp_right And.right, fun hC => (ht.safe x hx).resolve_right fun hx => ?_⟩
    exact run_invariant routed_step List.not_mem_nil hC h hx.1
  · exact (run_logged placed_step h hy).resolve_left List.not_mem_nil

def sampleSetup : Setup := ⟨asciiStr, [ascii "axiom"], [[ascii "outbox"]], none⟩

/-- Two files come into an outbox; the server crashes before it removes the one that it has
delivered, and delivers it again. -/
def sampleEvents : List Event :=
  let outbox := [ascii "outbox", ascii "new"]
  let pass := [.route .outboxes ⟨0, 0, [], []⟩, .write .outboxes (ascii "3") .whole, .rename .outboxes true]
  [.put outbox (ascii "1") (ascii "To: b@axiom\r\n\r\nhi\r\n"), .put outbox (ascii "2") (ascii "hi\r\n"),
    .list .outboxes [outbox ++ [ascii "1"], outbox ++ [ascii "2"]], .read .outboxes] ++ pass ++
  [.crash, .list .outboxes [outbox ++ [ascii "1"], outbox ++ [ascii "2"]], .read .outboxes,
    .route .outboxes ⟨1, 1, [], []⟩, .write .outboxes (ascii "4") .whole, .rename .outboxes true,
    .unlink .outboxes true, .read .outboxes, .route .outboxes ⟨2, 2, [], []⟩]

/-- The delivered file is gone, and the one without a recipient is still there. -/
theorem collectors_lose_nothing_two : ∃ t,
    run (step sampleSetup) (start [(ascii "b@axiom", [ascii "mail"])]) sampleEvents = some t ∧
    Table.get t.files [ascii "outbox", ascii "new", ascii "1"] = none ∧
    Table.get t.files [ascii "outbox", ascii "new", ascii "2"] = some (ascii "hi\r\n") ∧
    Delivered sampleSetup t [ascii "outbox", ascii "new", ascii "1"]
      (ascii "To: b@axiom\r\n\r\nhi\r\n") := by
  have hr : (run (step sampleSetup) (start [(ascii "b@axiom", [ascii "mail"])]) sampleEvents).map
      (fun t => (t.arrived, Table.get t.files [ascii "outbox", ascii "new", ascii "1"])) =
      some ([([ascii "outbox", ascii "new", ascii "2"], ascii "hi\r\n"),
        ([ascii "outbox", ascii "new", ascii "1"], ascii "To: b@axiom\r\n\r\nhi\r\n")], none) := by
    decide +kernel
  have hC : Along (step sampleSetup)
      (FoundUnroutable sampleSetup [ascii "outbox", ascii "new", ascii "2"])
      (start [(ascii "b@axiom", [ascii "mail"])]) sampleEvents := by decide +kernel
  obtain ⟨t, ht, hx⟩ := Option.map_eq_some_iff.1 hr
  obtain ⟨harrived, hgone⟩ := Prod.mk.inj hx
  have hkept := (collectors_lose_nothing ht).1
  rw [harrived, List.forall_mem_cons, List.forall_mem_singleton] at hkept
  obtain ⟨⟨-, hstays⟩, hfirst, -⟩ := hkept
  exact ⟨t, ht, hgone, hstays hC, hfirst.resolve_left fun h => by simp [hgone] at h⟩

end Fatmama.Collector
