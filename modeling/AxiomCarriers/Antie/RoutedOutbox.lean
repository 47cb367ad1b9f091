import AxiomCarriers.Antie.Outbound
import AxiomCarriers.Lib.Run
import AxiomCarriers.Lib.Table
import AxiomCarriers.Lib.Text
import Mathlib.Data.List.Nodup

/-!
# Mail that is written to outboxes

With a routing table ANTIE opens no connection: `RoutedCarrier::send` writes the mail as a file into
the outbox of the recipient's domain, and an agent collects it there.  `Maildir::write_message`
writes into `tmp/` and renames into `new/`, so that the agent finds whole mails only.

`outbox_sends` is about any number of sends at once whose file operations fail, or that are dropped
on the way, while the agents take files away.
-/

namespace Antie.RoutedOutbox

open Bytes Outbound Runs

/-! ## The carrier -/

/-- `RoutedCarrier`: the table, and the outboxes that are open; each row has its own. -/
structure RoutedCarrier where
  route : List Route
  outboxes : List Bytes
  opened : ∀ r ∈ route, r.outbox ∈ outboxes

/-- The loop of `RoutedCarrier::new` over the outboxes of the table: `opens` says where
`Maildir::open` succeeds. -/
def openOutboxes (opens : Bytes → Bool) : List Bytes → List Bytes → Option (List Bytes)
  | [], outboxes => some outboxes
  | p :: wanted, outboxes =>
    if p ∈ outboxes then openOutboxes opens wanted outboxes
    else if opens p then openOutboxes opens wanted (p :: outboxes)
    else none

theorem openOutboxes_eq_some {opens : Bytes → Bool} {wanted before outboxes : List Bytes}
    (h : openOutboxes opens wanted before = some outboxes) :
    ∀ p, p ∈ outboxes ↔ p ∈ wanted ∨ p ∈ before := by
  induction wanted generalizing before with
  | nil =>
    obtain rfl := Option.some.inj h
    simp
  | cons q wanted ih =>
    intro p
    rw [openOutboxes] at h
    split_ifs at h with hopen hopens
    · rw [ih h, List.mem_cons, or_assoc]
      refine ⟨Or.inr, fun hp => hp.elim (fun he => Or.inr ?_) id⟩
      rwa [he]
    · rw [ih h, List.mem_cons, List.mem_cons, or_left_comm, or_assoc]

/-- `RoutedCarrier::new`. -/
def RoutedCarrier.new (opens : Bytes → Bool) (inbox : Bytes) (route : List Route) :
    Option RoutedCarrier :=
  match h : openOutboxes opens (route.map Route.outbox) [] with
  | some outboxes =>
    if opens inbox then
      some ⟨route, outboxes, fun _ hr =>
        (openOutboxes_eq_some h _).2 (Or.inl (List.mem_map_of_mem hr))⟩
    else none
  | none => none

/-! ## Sends -/

inductive SendError
  | config (r : Rejection)
  /-- `outbound route table empty while RoutedCarrier active (to={to})` -/
  | emptyTable (recipient : Bytes)
  /-- `no open outbox for {dir} — startup should have created it` -/
  | notOpen (dir : Bytes)
  | io
  deriving DecidableEq

/-- The outbox that `RoutedCarrier::send` writes to. -/
def RoutedCarrier.outbox (c : RoutedCarrier) (recipient : Bytes) : Except SendError Bytes :=
  match outboxFor c.route recipient with
  | .error r => .error (.config r)
  | .ok none => .error (.emptyTable recipient)
  | .ok (some dir) => if dir ∈ c.outboxes then .ok dir else .error (.notOpen dir)

/-- What the name of a file is made of: the clock, the process, and a `Uuid::new_v4`. -/
structure Stamp where
  micros : ℕ
  pid : ℕ
  uuid : Bytes
  deriving DecidableEq

/-- The file name that `write_message` generates. -/
def fileName (t : Stamp) : Bytes :=
  Text.decimal t.micros ++ ascii "." ++ Text.decimal t.pid ++ ascii ".localhost." ++ t.uuid

/-- A file of an outbox: the directory, and the name. -/
abbrev File := Bytes × Bytes

/-- Where a send is. -/
inductive Stage
  | create
  /-- So many bytes are written. -/
  | write (n : ℕ)
  /-- The file is moved, and `send` is to return. -/
  | moved
  /-- The send has returned, or it was dropped. -/
  | ended (r : Option (Except SendError Unit))
  deriving DecidableEq

structure Job where
  recipient : Bytes
  raw : Bytes
  file : File
  stage : Stage
  /-- The file was moved into `new/`. -/
  placed : Bool
  deriving DecidableEq

structure State where
  tmp : List (File × Bytes)
  new : List (File × Bytes)
  /-- What the agents have collected. -/
  taken : List (File × Bytes)
  jobs : List Job
  /-- The sends that got no outbox. -/
  refused : List (Bytes × SendError)

inductive Event
  | send (recipient raw : Bytes) (stamp : Stamp)
  | create (i : ℕ)
  | write (i n : ℕ)
  | rename (i : ℕ)
  | back (i : ℕ)
  /-- A file operation of the send fails. -/
  | fail (i : ℕ)
  /-- The send is dropped, or the process ends; an operation that was under way comes before. -/
  | drop (i : ℕ)
  /-- An agent takes the file out of `new/`. -/
  | take (f : File)

def State.setJob (s : State) (i : ℕ) (j : Job) : State := { s with jobs := s.jobs.set i j }

def rename (s : State) (i : ℕ) (j : Job) : State :=
  match Table.get s.tmp j.file with
  | some content =>
    { s with
      tmp := Table.del s.tmp j.file
      new := Table.put s.new j.file content }.setJob i { j with stage := .moved, placed := true }
  | none => s.setJob i { j with stage := .ended (some (.error .io)) }

def step (c : RoutedCarrier) (s : State) : Event → Option State
  | .send recipient raw stamp =>
    match c.outbox recipient with
    | .error e => some { s with refused := (recipient, e) :: s.refused }
    | .ok dir =>
      some { s with jobs := s.jobs ++ [⟨recipient, raw, (dir, fileName stamp), .create, false⟩] }
  | .create i => do
    let j ← s.jobs[i]?
    match j.stage with
    | .create =>
      some ({ s with tmp := Table.put s.tmp j.file [] }.setJob i { j with stage := .write 0 })
    | _ => none
  | .write i n => do
    let j ← s.jobs[i]?
    match j.stage with
    | .write m =>
      some ({ s with tmp := Table.put s.tmp j.file (j.raw.take (m + n)) }.setJob i
        { j with stage := .write (m + n) })
    | _ => none
  | .rename i => do
    let j ← s.jobs[i]?
    match j.stage with
    | .write m => if j.raw.length ≤ m then some (rename s i j) else none
    | _ => none
  | .back i => do
    let j ← s.jobs[i]?
    match j.stage with
    | .moved => some (s.setJob i { j with stage := .ended (some (.ok ())) })
    | _ => none
  | .fail i => do
    let j ← s.jobs[i]?
    match j.stage with
    | .create | .write _ => some (s.setJob i { j with stage := .ended (some (.error .io)) })
    | _ => none
  | .drop i => do
    let j ← s.jobs[i]?
    match j.stage with
    | .ended _ => none
    | _ => some (s.setJob i { j with stage := .ended none })
  | .take f => do
    let b ← Table.get s.new f
    return { s with new := Table.del s.new f, taken := (f, b) :: s.taken }

/-- The carrier starts with what is in the outboxes. -/
def started (new : List (File × Bytes)) : State := ⟨[], new, [], [], []⟩

/-- A file name that is generated is new. -/
def Fresh (s : State) : Event → Prop
  | .send _ _ stamp => fileName stamp ∉
      s.jobs.map (·.file.2) ++ (Table.keys (s.new ++ s.taken)).map Prod.snd
  | _ => True

instance (s : State) (e : Event) : Decidable (Fresh s e) := by
  unfold Fresh
  split <;> infer_instance

/-! ## What holds of a send -/

/-- What is in `tmp/` and in `new/`, at each point of a send. -/
def Stage.Holds (tmp : List (File × Bytes)) (j : Job) : Stage → Prop
  | .create => j.placed = false
  | .write n => j.placed = false ∧ Table.get tmp j.file = some (j.raw.take n)
  | .moved => j.placed = true
  | .ended (some (.ok ())) => j.placed = true
  | .ended (some (.error _)) => j.placed = false
  | .ended none => True

structure Job.Holds (c : RoutedCarrier) (s : State) (j : Job) : Prop where
  outbox : outboxFor c.route j.recipient = .ok (some j.file.1)
  stage : j.stage.Holds s.tmp j
  there : j.placed = true → (j.file, j.raw) ∈ s.new ++ s.taken
  absent : j.placed = false → j.file ∉ Table.keys (s.new ++ s.taken)

/-- What holds of the files and of all sends: `new` is what was in the outboxes. -/
structure Inv (c : RoutedCarrier) (new : List (File × Bytes)) (s : State) : Prop where
  once : (Table.keys (s.new ++ s.taken)).Nodup
  apart : (s.jobs.map (·.file.2)).Nodup
  jobs : ∀ j ∈ s.jobs, j.Holds c s
  known : ∀ p ∈ s.new ++ s.taken, p ∈ new ∨ ∃ j ∈ s.jobs, j.placed = true ∧ p = (j.file, j.raw)
  kept : ∀ p ∈ new, p ∈ s.new ++ s.taken
  refused : ∀ x ∈ s.refused, c.outbox x.1 = .error x.2

variable {c : RoutedCarrier} {new : List (File × Bytes)} {s t : State} {i : ℕ} {j j' : Job}

theorem inv_started (hnew : (Table.keys new).Nodup) : Inv c new (started new) where
  once := by rwa [started, List.append_nil]
  apart := List.nodup_nil
  jobs := fun j hj => absurd hj List.not_mem_nil
  known := fun p hp => Or.inl (by rwa [started, List.append_nil] at hp)
  kept := fun p hp => by rwa [started, List.append_nil]
  refused := fun x hx => absurd hx List.not_mem_nil

/-- The other sends have other file names. -/
theorem Inv.ne_name (h : Inv c new s) (hi : s.jobs[i]? = some j) {k : ℕ} {x : Job}
    (hk : s.jobs[k]? = some x) (hne : k ≠ i) : x.file.2 ≠ j.file.2 := by
  intro heq
  obtain ⟨hlt, -⟩ := List.getElem?_eq_some_iff.1 hk
  refine hne ((List.getElem?_inj (by rwa [List.length_map]) h.apart).1 ?_)
  rw [List.getElem?_map, List.getElem?_map, hk, hi, Option.map_some, Option.map_some, heq]

theorem Inv.ne_file (h : Inv c new s) (hi : s.jobs[i]? = some j) {k : ℕ} {x : Job}
    (hk : s.jobs[k]? = some x) (hne : k ≠ i) : x.file ≠ j.file :=
  fun heq => h.ne_name hi hk hne (congrArg Prod.snd heq)

/-- A send after a step of the send `i`: that one, or another as it was. -/
theorem mem_set {x : Job} (hx : x ∈ s.jobs.set i j') :
    x = j' ∨ ∃ k, k ≠ i ∧ s.jobs[k]? = some x := by
  obtain ⟨k, hk⟩ := List.mem_iff_getElem?.1 hx
  rw [List.getElem?_set] at hk
  split_ifs at hk with hki hlt
  · exact Or.inl (Option.some.inj hk).symm
  · exact Or.inr ⟨k, Ne.symm hki, hk⟩

theorem map_file_set (hi : s.jobs[i]? = some j) (j' : Job) (hfile : j'.file = j.file) :
    (s.jobs.set i j').map (·.file.2) = s.jobs.map (·.file.2) := by
  obtain ⟨hlt, rfl⟩ := List.getElem?_eq_some_iff.1 hi
  have hmap : i < (s.jobs.map (·.file.2)).length := by rwa [List.length_map]
  have hget : (s.jobs.map (·.file.2))[i] = s.jobs[i].file.2 := List.getElem_map _
  rw [List.map_set, hfile, ← hget, List.set_getElem_self]

/-- Sends that have got into `new/` are still among them, where those go on that have. -/
theorem mem_set_of_placed (hi : s.jobs[i]? = some j) (j' : Job)
    (hsame : j'.file = j.file ∧ j'.raw = j.raw) (hplaced : j.placed = true → j'.placed = true)
    {x : Job} (hx : x ∈ s.jobs) (hxp : x.placed = true) :
    ∃ y ∈ s.jobs.set i j', y.placed = true ∧ (x.file, x.raw) = (y.file, y.raw) := by
  obtain ⟨hlt, -⟩ := List.getElem?_eq_some_iff.1 hi
  obtain ⟨k, hk⟩ := List.mem_iff_getElem?.1 hx
  by_cases hki : k = i
  · subst hki
    obtain rfl := Option.some.inj (hi.symm.trans hk)
    exact ⟨j', List.mem_set hlt j', hplaced hxp, by rw [hsame.1, hsame.2]⟩
  · refine ⟨x, List.mem_iff_getElem?.2 ⟨k, ?_⟩, hxp, rfl⟩
    rwa [List.getElem?_set_ne (Ne.symm hki)]

/-! ## Steps -/

/-- What a step can do. -/
inductive Step (c : RoutedCarrier) (s : State) : Event → State → Prop
  | refuse {recipient raw : Bytes} {stamp : Stamp} {e : SendError}
    (hrefused : c.outbox recipient = .error e) :
    Step c s (.send recipient raw stamp) { s with refused := (recipient, e) :: s.refused }
  | send {recipient raw dir : Bytes} {stamp : Stamp} (hdir : c.outbox recipient = .ok dir) :
    Step c s (.send recipient raw stamp)
      { s with jobs := s.jobs ++ [⟨recipient, raw, (dir, fileName stamp), .create, false⟩] }
  /-- A send goes on, and `new/` stays. -/
  | goOn {e : Event} {i : ℕ} {j : Job} {tmp : List (File × Bytes)} {stage : Stage}
    (he : ∀ i, e ≠ .rename i) (hi : s.jobs[i]? = some j)
    (htmp : ∀ f, f ≠ j.file → Table.get tmp f = Table.get s.tmp f)
    (hstage : j.stage.Holds s.tmp j → stage.Holds tmp { j with stage }) :
    Step c s e ({ s with tmp }.setJob i { j with stage })
  | rename {i : ℕ} {j : Job} {m : ℕ} (hi : s.jobs[i]? = some j) (hstage : j.stage = .write m)
    (hm : j.raw.length ≤ m) : Step c s (.rename i) (rename s i j)
  | take {f : File} {b : Bytes} (hget : Table.get s.new f = some b) :
    Step c s (.take f) { s with new := Table.del s.new f, taken := (f, b) :: s.taken }

theorem step_spec {e : Event} (h : step c s e = some t) : Step c s e t := by
  have hput : ∀ (f g : File) (b : Bytes), g ≠ f →
      Table.get (Table.put s.tmp f b) g = Table.get s.tmp g :=
    fun f g b hne => Table.get_put_of_ne hne.symm _ _
  cases e with
  | send recipient raw stamp =>
    unfold step at h
    dsimp only at h
    split at h
    · rename_i e hrefused
      obtain rfl := Option.some.inj h
      exact .refuse hrefused
    · rename_i dir hdir
      obtain rfl := Option.some.inj h
      exact .send hdir
  | take f =>
    obtain ⟨b, hget, ht⟩ := Option.bind_eq_some_iff.1 h
    obtain rfl := Option.some.inj ht
    exact .take hget
  | rename i =>
    obtain ⟨j, hi, ht⟩ := Option.bind_eq_some_iff.1 h
    split at ht
    · rename_i m hstage
      split_ifs at ht with hm
      obtain rfl := Option.some.inj ht
      exact .rename hi hstage hm
    · cases ht
  | create i =>
    obtain ⟨j, hi, ht⟩ := Option.bind_eq_some_iff.1 h
    split at ht
    · rename_i hstage
      obtain rfl := Option.some.inj ht
      refine .goOn (fun _ => Event.noConfusion) hi (fun f hf => hput _ f _ hf) fun hj => ?_
      rw [hstage] at hj
      exact ⟨hj, Table.get_put_self _ _ _⟩
    · cases ht
  | write i n =>
    obtain ⟨j, hi, ht⟩ := Option.bind_eq_some_iff.1 h
    split at ht
    · rename_i m hstage
      obtain rfl := Option.some.inj ht
      refine .goOn (fun _ => Event.noConfusion) hi (fun f hf => hput _ f _ hf) fun hj => ?_
      rw [hstage] at hj
      exact ⟨hj.1, Table.get_put_self _ _ _⟩
    · cases ht
  | back i =>
    obtain ⟨j, hi, ht⟩ := Option.bind_eq_some_iff.1 h
    split at ht
    · rename_i hstage
      obtain rfl := Option.some.inj ht
      refine .goOn (fun _ => Event.noConfusion) hi (fun f _ => rfl) fun hj => ?_
      rwa [hstage] at hj
    · cases ht
  | fail i =>
    obtain ⟨j, hi, ht⟩ := Option.bind_eq_some_iff.1 h
    split at ht
    · rename_i hstage
      obtain rfl := Option.some.inj ht
      refine .goOn (fun _ => Event.noConfusion) hi (fun f _ => rfl) fun hj => ?_
      rwa [hstage] at hj
    · rename_i m hstage
      obtain rfl := Option.some.inj ht
      refine .goOn (fun _ => Event.noConfusion) hi (fun f _ => rfl) fun hj => ?_
      rw [hstage] at hj
      exact hj.1
    · cases ht
  | drop i =>
    obtain ⟨j, hi, ht⟩ := Option.bind_eq_some_iff.1 h
    split at ht
    · cases ht
    · obtain rfl := Option.some.inj ht
      exact .goOn (fun _ => Event.noConfusion) hi (fun f _ => rfl) fun _ => trivial

/-! ## What the steps preserve -/


theorem Stage.Holds.of_tmp {tmp tmp' : List (File × Bytes)} {stage : Stage}
    (h : stage.Holds tmp j) (hget : Table.get tmp' j.file = Table.get tmp j.file) :
    stage.Holds tmp' j := by
  cases stage with
  | write n => exact ⟨h.1, hget.trans h.2⟩
  | create | moved => exact h
  | ended r =>
    cases r with
    | none => trivial
    | some r => cases r <;> exact h

/-- A step of a send that leaves `new/`. -/
theorem Inv.setJob (h : Inv c new s) (hi : s.jobs[i]? = some j) {tmp : List (File × Bytes)}
    (htmp : ∀ f, f ≠ j.file → Table.get tmp f = Table.get s.tmp f) {stage : Stage}
    (hstage : stage.Holds tmp { j with stage }) :
    Inv c new ({ s with tmp }.setJob i { j with stage }) := by
  have hj := h.jobs j (List.mem_of_getElem? hi)
  refine { h with apart := ?_, jobs := fun x hx => ?_, known := fun p hp => ?_ }
  · show ((s.jobs.set i { j with stage }).map (·.file.2)).Nodup
    rw [map_file_set hi { j with stage } rfl]
    exact h.apart
  · rcases mem_set (s := s) hx with rfl | ⟨k, hk, hx⟩
    · exact ⟨hj.outbox, hstage, hj.there, hj.absent⟩
    · have hxs := h.jobs x (List.mem_of_getElem? hx)
      exact ⟨hxs.outbox, hxs.stage.of_tmp (htmp _ (h.ne_file hi hx hk)), hxs.there, hxs.absent⟩
  · refine (h.known p hp).imp_right ?_
    rintro ⟨x, hx, hxp, rfl⟩
    exact mem_set_of_placed hi { j with stage } ⟨rfl, rfl⟩ id hx hxp

theorem whole_of_write (h : Inv c new s) (hi : s.jobs[i]? = some j) {m : ℕ}
    (hstage : j.stage = .write m) (hm : j.raw.length ≤ m) :
    j.placed = false ∧ Table.get s.tmp j.file = some j.raw := by
  have hj := (h.jobs j (List.mem_of_getElem? hi)).stage
  rw [hstage] at hj
  exact ⟨hj.1, hj.2.trans (congrArg some (List.take_of_length_le hm))⟩

theorem Inv.rename (h : Inv c new s) (hi : s.jobs[i]? = some j) {m : ℕ}
    (hstage : j.stage = .write m) (hm : j.raw.length ≤ m) : Inv c new (rename s i j) := by
  obtain ⟨hplaced, hget⟩ := whole_of_write h hi hstage hm
  have hj := h.jobs j (List.mem_of_getElem? hi)
  have habsent := hj.absent hplaced
  have hnot : j.file ∉ Table.keys s.new := fun hf =>
    habsent (((List.sublist_append_left s.new s.taken).map Prod.fst).subset hf)
  rw [RoutedOutbox.rename, hget]
  dsimp only
  rw [Table.put, Table.del_eq_self hnot]
  refine { h with
    once := List.nodup_cons.2 ⟨habsent, h.once⟩
    apart := ?_
    jobs := fun x hx => ?_
    known := fun p hp => ?_
    kept := fun p hp => List.mem_cons_of_mem _ (h.kept p hp) }
  · show ((s.jobs.set i { j with stage := .moved, placed := true }).map (·.file.2)).Nodup
    rw [map_file_set hi { j with stage := .moved, placed := true } rfl]
    exact h.apart
  · rcases mem_set (s := s) hx with rfl | ⟨k, hk, hx⟩
    · exact ⟨hj.outbox, rfl, fun _ => List.mem_cons_self, fun hp => by cases hp⟩
    · have hxs := h.jobs x (List.mem_of_getElem? hx)
      have hne := h.ne_file hi hx hk
      exact ⟨hxs.outbox, hxs.stage.of_tmp (Table.get_del_of_ne hne.symm _),
        fun hp => List.mem_cons_of_mem _ (hxs.there hp),
        fun hp => List.not_mem_cons_of_ne_of_not_mem hne (hxs.absent hp)⟩
  · rcases List.mem_cons.1 hp with rfl | hp
    · obtain ⟨hlt, -⟩ := List.getElem?_eq_some_iff.1 hi
      exact Or.inr ⟨_, List.mem_set hlt _, rfl, rfl⟩
    · refine (h.known p hp).imp_right ?_
      rintro ⟨x, hx, hxp, rfl⟩
      exact mem_set_of_placed hi { j with stage := .moved, placed := true } ⟨rfl, rfl⟩
        (fun _ => rfl) hx hxp

/-- An agent takes a file. -/
theorem Inv.take (h : Inv c new s) {f : File} {b : Bytes} (hget : Table.get s.new f = some b) :
    Inv c new { s with new := Table.del s.new f, taken := (f, b) :: s.taken } := by
  have hnew : (Table.keys s.new).Nodup :=
    h.once.sublist ((List.sublist_append_left s.new s.taken).map Prod.fst)
  have hperm : (s.new ++ s.taken).Perm (Table.del s.new f ++ (f, b) :: s.taken) :=
    ((Table.perm_del hnew hget).append_right s.taken).trans List.perm_middle.symm
  exact {
    once := (hperm.map Prod.fst).nodup_iff.1 h.once
    apart := h.apart
    jobs := fun x hx =>
      let hxs := h.jobs x hx
      ⟨hxs.outbox, hxs.stage, fun hp => hperm.mem_iff.1 (hxs.there hp),
        fun hp hf => hxs.absent hp ((hperm.map Prod.fst).mem_iff.2 hf)⟩
    known := fun p hp => h.known p (hperm.mem_iff.2 hp)
    kept := fun p hp => hperm.mem_iff.1 (h.kept p hp)
    refused := h.refused }

theorem outbox_eq_ok {recipient dir : Bytes} (h : c.outbox recipient = .ok dir) :
    outboxFor c.route recipient = .ok (some dir) := by
  unfold RoutedCarrier.outbox at h
  split at h
  · cases h
  · cases h
  · rename_i d hd
    split_ifs at h
    obtain rfl := Except.ok.inj h
    exact hd

/-- A send begins. -/
theorem Inv.send (h : Inv c new s) {recipient raw dir : Bytes} {stamp : Stamp}
    (hfresh : Fresh s (.send recipient raw stamp)) (hdir : c.outbox recipient = .ok dir) :
    Inv c new { s with
      jobs := s.jobs ++ [⟨recipient, raw, (dir, fileName stamp), .create, false⟩] } := by
  rw [Fresh, List.mem_append, not_or] at hfresh
  refine { h with apart := ?_, jobs := fun x hx => ?_, known := fun p hp => ?_ }
  · show ((s.jobs ++ [_]).map fun j : Job => j.file.2).Nodup
    rw [List.map_append, List.map_singleton, List.nodup_append]
    refine ⟨h.apart, by simp, fun a ha b hb heq => hfresh.1 ?_⟩
    obtain rfl := List.mem_singleton.1 hb
    subst heq
    exact ha
  · rcases List.mem_append.1 hx with hx | hx
    · have hxs := h.jobs x hx
      exact ⟨hxs.outbox, hxs.stage, hxs.there, hxs.absent⟩
    · obtain rfl := List.mem_singleton.1 hx
      refine ⟨outbox_eq_ok hdir, rfl, fun hp => Bool.noConfusion hp, fun _ hf => hfresh.2 ?_⟩
      exact List.mem_map.2 ⟨_, hf, rfl⟩
  · refine (h.known p hp).imp_right ?_
    rintro ⟨x, hx, hxp⟩
    exact ⟨x, List.mem_append_left _ hx, hxp⟩

theorem step_inv {e : Event} (h : Inv c new s) (hfresh : Fresh s e) (hstep : step c s e = some t) :
    Inv c new t := by
  cases step_spec hstep with
  | refuse hrefused =>
    refine { h with
      jobs := fun x hx =>
        let hxs := h.jobs x hx
        ⟨hxs.outbox, hxs.stage, hxs.there, hxs.absent⟩
      refused := fun x hx => ?_ }
    rcases List.mem_cons.1 hx with rfl | hx
    · exact hrefused
    · exact h.refused x hx
  | send hdir => exact h.send hfresh hdir
  | goOn _ hi htmp hstage =>
    exact h.setJob hi htmp (hstage (h.jobs _ (List.mem_of_getElem? hi)).stage)
  | rename hi hstage hm => exact h.rename hi hstage hm
  | take hget => exact h.take hget

/-- An outbox is found in the table, and so it is open. -/
theorem outbox_of_outboxFor {recipient dir : Bytes}
    (h : outboxFor c.route recipient = .ok (some dir)) : dir ∈ c.outboxes := by
  have hroute : c.route ≠ [] := fun hnil => by rw [hnil] at h; cases h
  rw [outboxFor_eq hroute] at h
  split at h
  · cases h
  · unfold lookup at h
    split at h
    · rename_i r hr
      obtain rfl := Option.some.inj (Except.ok.inj h)
      exact c.opened r (List.mem_of_find?_eq_some hr)
    · cases h

/-- With a table, a send is refused where `outbox_for` refuses the recipient: no outbox is ever
missing. -/
theorem outbox_eq_error (hroute : c.route ≠ []) {recipient : Bytes} {e : SendError}
    (h : c.outbox recipient = .error e) :
    ∃ r, outboxFor c.route recipient = .error r ∧ e = .config r := by
  unfold RoutedCarrier.outbox at h
  split at h
  · rename_i r hr
    exact ⟨r, hr, (Except.error.inj h).symm⟩
  · rename_i hnone
    rw [outboxFor_eq hroute] at hnone
    unfold lookup at hnone
    split at hnone
    · cases hnone
    · split at hnone <;> cases hnone
  · rename_i dir hdir
    rw [if_pos (outbox_of_outboxFor hdir)] at h
    cases h

theorem run_inv (hnew : (Table.keys new).Nodup) {es : List Event}
    (hfresh : Along (step c) Fresh (started new) es)
    (hrun : run (step c) (started new) es = some t) : Inv c new t :=
  run_invariant (fun _ _ _ h hfresh hstep => step_inv h hfresh hstep) (inv_started hnew) hfresh hrun

/-- What an outbox gets.  Nothing that was there is written over, and each file is there or was
taken once; each is the whole mail of one send and lies in the outbox of its recipient's domain.  A
send that returns without an error has put its file there, and one that returns with an error has
put none.  A send is refused only where the table has no row for the recipient. -/
theorem outbox_sends (hroute : c.route ≠ []) (hnew : (Table.keys new).Nodup) {es : List Event}
    (hfresh : Along (step c) Fresh (started new) es)
    (hrun : run (step c) (started new) es = some t) :
    (Table.keys (t.new ++ t.taken)).Nodup ∧ (∀ p ∈ new, p ∈ t.new ++ t.taken) ∧
    (∀ p ∈ t.new ++ t.taken, p ∈ new ∨ ∃ j ∈ t.jobs, p = (j.file, j.raw)) ∧
    (t.jobs.map Job.file).Nodup ∧
    (∀ j ∈ t.jobs, outboxFor c.route j.recipient = .ok (some j.file.1) ∧
      (j.stage = .ended (some (.ok ())) → (j.file, j.raw) ∈ t.new ++ t.taken) ∧
      ∀ e, j.stage = .ended (some (.error e)) → j.file ∉ Table.keys (t.new ++ t.taken)) ∧
    ∀ x ∈ t.refused, ∃ r, outboxFor c.route x.1 = .error r ∧ x.2 = .config r := by
  have h := run_inv hnew hfresh hrun
  refine ⟨h.once, h.kept, fun p hp => (h.known p hp).imp_right ?_, ?_, fun j hj => ?_,
    fun x hx => outbox_eq_error hroute (h.refused x hx)⟩
  · rintro ⟨j, hj, -, hp⟩
    exact ⟨j, hj, hp⟩
  · exact List.Nodup.of_map Prod.snd (by rw [List.map_map]; exact h.apart)
  · have hjob := h.jobs j hj
    refine ⟨hjob.outbox, fun hstage => hjob.there ?_, fun e hstage => hjob.absent ?_⟩
    · have hplaced := hjob.stage
      rwa [hstage] at hplaced
    · have hplaced := hjob.stage
      rwa [hstage] at hplaced

/-- The table of a host with an outbox for the cluster and one for a provider. -/
def sampleCarrier : RoutedCarrier where
  route := [⟨ascii "axiom.internal", ascii "fatmama"⟩, ⟨ascii "purelymail.com", ascii "postfix"⟩]
  outboxes := [ascii "postfix", ascii "fatmama"]
  opened := by decide

/-- Two sends at once, one of which cannot write its file whole, and one that is refused. -/
def sampleEvents : List Event :=
  [.send (ascii "a@axiom.internal") (ascii "one") ⟨7, 1, ascii "u"⟩,
    .send (ascii "b@PurelyMail.com") (ascii "two") ⟨7, 1, ascii "v"⟩, .create 0, .create 1,
    .write 1 2, .write 0 3, .fail 1, .rename 0,
    .send (ascii "c@example.com") (ascii "three") ⟨8, 1, ascii "w"⟩, .back 0,
    .take (ascii "fatmama", fileName ⟨7, 1, ascii "u"⟩)]

theorem outbox_sends_two : ∃ t,
    run (step sampleCarrier) (started []) sampleEvents = some t ∧
    ∀ j ∈ t.jobs, outboxFor sampleCarrier.route j.recipient = .ok (some j.file.1) ∧
      (j.stage = .ended (some (.ok ())) → (j.file, j.raw) ∈ t.new ++ t.taken) ∧
      ∀ e, j.stage = .ended (some (.error e)) → j.file ∉ Table.keys (t.new ++ t.taken) := by
  have hfresh : Along (step sampleCarrier) Fresh (started []) sampleEvents := by decide
  have hsome : (run (step sampleCarrier) (started []) sampleEvents).isSome := by decide
  have hnil : (Table.keys ([] : List (File × Bytes))).Nodup := List.nodup_nil
  obtain ⟨t, ht⟩ := Option.isSome_iff_exists.1 hsome
  obtain ⟨-, -, -, -, hjobs, -⟩ := outbox_sends (by decide) hnil hfresh ht
  exact ⟨t, ht, hjobs⟩

end Antie.RoutedOutbox
