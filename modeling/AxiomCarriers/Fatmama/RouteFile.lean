import AxiomCarriers.Fatmama.Routes

/-!
# The routes file of FATMAMA

`routes.json` has two writers: the operator replaces it, and the server writes its whole table over
it after each change.  The server reads the file when it is newer than it remembers, and looks only
at the beginning of a connection or of a round of collecting.  What the server does is cut into the
steps between which a replacement can fall.

An address that the operator adds is lost where the server writes the file, or takes the time of the
file that it has written, while the address waits to be loaded, or where the file that brings it is
not newer than the server remembers; in all other runs it stays in the table and in the file until
it is deleted (`edits_kept`).
-/

namespace Fatmama.RouteFile

open Bytes Runs

/-! ## The file and the server -/

/-- A JSON object of paths, `none` for a text that is none, and the modification time. -/
structure File where
  data : Option (List (Address × Path))
  mtime : ℕ
  deriving DecidableEq

/-- `load_routes`. -/
def loadRoutes (py : Str) (f : File) : Option (List (Address × Path)) :=
  f.data.map fun data => data.foldl (fun routes x => Table.put routes (py.lower x.1) x.2) []

/-- The addresses in the file. -/
def File.addresses (py : Str) (f : File) : List Address :=
  ((loadRoutes py f).map Table.keys).getD []

/-- Where the server is. -/
inductive Pc
  | idle
  /-- `_maybe_reload_routes` has found the file newer. -/
  | newer (mtime : ℕ)
  /-- It has read the file. -/
  | loaded (mtime : ℕ) (routes : List (Address × Path))
  /-- The table has changed, and `_persist_routes` is to write it. -/
  | changed
  /-- `_persist_routes` has renamed its file, and is to take its time. -/
  | renamed
  deriving DecidableEq

/-- The server, `_routes_mtime` and the file; the addresses that the operator has added, and those
of them that were there when the server last looked.  An address is none of them any more when the
operator or the server has removed it. -/
structure System where
  server : State
  routesMtime : ℕ
  file : File
  pc : Pc
  added : List Address
  due : List Address
  deriving DecidableEq

inductive Event
  /-- The operator puts another file in the place of this. -/
  | replace (f : File)
  /-- `_maybe_reload_routes`. -/
  | look
  | load
  | assign
  /-- The server registers, creates, deletes, reclaims, delivers. -/
  | serve (e : Fatmama.Event)
  /-- `_persist_routes` puts its file in the place of this. -/
  | rename (mtime : ℕ)
  /-- It cannot. -/
  | writeFails
  | recordMtime
  deriving DecidableEq

/-- The operator's addresses after a replacement. -/
def addedBy (py : Str) (s : System) (f : File) : List Address :=
  (f.addresses py).filter fun a => a ∈ s.added ∨ a ∉ s.file.addresses py

/-- The server has not removed the address. -/
def Survives (s server : State) (a : Address) : Prop :=
  Table.get server.routes a ≠ none ∨ Table.get s.routes a = none

instance (s server : State) (a : Address) : Decidable (Survives s server a) := instDecidableOr

def step (c : Config) (s : System) : Event → Option System
  | .replace f =>
    some { s with
      file := f
      added := addedBy c.py s f
      due := s.due.filter fun a => a ∈ f.addresses c.py }
  | .look =>
    if s.pc ≠ .idle then none
    else some { s with
      pc := if s.routesMtime < s.file.mtime then .newer s.file.mtime else .idle
      due := s.added }
  | .load =>
    match s.pc with
    | .newer mtime =>
      match loadRoutes c.py s.file with
      | some routes => some { s with pc := .loaded mtime routes }
      | none => some { s with pc := .idle }
    | _ => none
  | .assign =>
    match s.pc with
    | .loaded mtime routes =>
      some { s with server := { s.server with routes := routes }, routesMtime := mtime, pc := .idle }
    | _ => none
  | .serve e =>
    if s.pc ≠ .idle then none
    else (Fatmama.step c s.server e).map fun server => { s with
      server := server
      pc := if server.routes = s.server.routes then .idle else .changed
      added := s.added.filter fun a => Survives s.server server a
      due := s.due.filter fun a => Survives s.server server a }
  | .rename mtime =>
    if s.pc ≠ .changed then none
    else some { s with file := ⟨some s.server.routes, mtime⟩, pc := .renamed }
  | .writeFails => if s.pc ≠ .changed then none else some { s with pc := .idle }
  | .recordMtime =>
    if s.pc ≠ .renamed then none else some { s with routesMtime := s.file.mtime, pc := .idle }

/-- The server has started with the file. -/
def started (server : State) (mtime : ℕ) (f : File) : System := ⟨server, mtime, f, .idle, [], []⟩

/-! ## The condition -/

/-- The table of the server, or the one that it is about to take. -/
def System.table (s : System) : List (Address × Path) :=
  match s.pc with
  | .loaded _ routes => routes
  | _ => s.server.routes

/-- An address of the operator waits to be loaded. -/
def System.Waiting (s : System) : Prop := ∃ a ∈ s.added, Table.get s.table a = none

instance (s : System) : Decidable s.Waiting := List.decidableBEx _ s.added

/-- A file of this time is loaded when the server looks the next time. -/
def System.Notices (s : System) (mtime : ℕ) : Prop :=
  match s.pc with
  | .idle | .changed => s.routesMtime < mtime
  | .loaded remembered _ => remembered < mtime
  | .newer _ | .renamed => True

instance (s : System) (mtime : ℕ) : Decidable (s.Notices mtime) := by
  unfold System.Notices
  split <;> infer_instance

/-- A replacement that makes an address wait is newer than the server remembers, and while one waits
the server does not write the file, nor takes the time of a file that it has written. -/
def InTime (c : Config) (s : System) : Event → Prop
  | .replace f => (∃ a ∈ addedBy c.py s f, Table.get s.table a = none) → s.Notices f.mtime
  | .rename _ | .recordMtime => ¬ s.Waiting
  | _ => True

instance (c : Config) (s : System) (e : Event) : Decidable (InTime c s e) := by
  unfold InTime
  split <;> infer_instance

/-- Unless the server is loading the file, the operator's addresses that were there when it last
looked are in the table and in the file. -/
def System.Kept (py : Str) (s : System) : Prop :=
  match s.pc with
  | .newer _ | .loaded _ _ => True
  | _ => ∀ a ∈ s.due, Table.get s.server.routes a ≠ none ∧ a ∈ s.file.addresses py

instance (py : Str) (s : System) : Decidable (s.Kept py) := by
  unfold System.Kept
  split <;> infer_instance

/-! ## What stays -/

theorem get_ne_none_iff {t : List (Address × Path)} {a : Address} :
    Table.get t a ≠ none ↔ a ∈ Table.keys t := by
  induction t with
  | nil => simp [Table.keys]
  | cons p t ih =>
    obtain ⟨k, b⟩ := p
    by_cases hk : k = a
    · simp [Table.get_cons, Table.keys, hk]
    · simpa [Table.get_cons, Table.keys, hk, Ne.symm hk] using ih

theorem mem_keys_load (py : Str) (data routes : List (Address × Path)) (a : Address) :
    a ∈ Table.keys (data.foldl (fun routes x => Table.put routes (py.lower x.1) x.2) routes) ↔
      a ∈ Table.keys routes ∨ ∃ k ∈ Table.keys data, py.lower k = a := by
  induction data generalizing routes with
  | nil => simp [Table.keys]
  | cons x data ih =>
    rw [List.foldl_cons, ih]
    have hput : a ∈ Table.keys (Table.put routes (py.lower x.1) x.2) ↔
        py.lower x.1 = a ∨ a ∈ Table.keys routes := by
      simp only [← get_ne_none_iff]
      by_cases hx : py.lower x.1 = a
      · simp [hx]
      · simp [Table.get_put_of_ne hx, hx]
    rw [hput]
    simp only [Table.keys, List.map_cons, List.mem_cons, exists_eq_or_imp]
    tauto

/-- The addresses in a file are those of its object, in lower case. -/
theorem mem_addresses {py : Str} {f : File} {a : Address} :
    a ∈ f.addresses py ↔ ∃ data, f.data = some data ∧ ∃ k ∈ Table.keys data, py.lower k = a := by
  obtain ⟨data, mtime⟩ := f
  cases data with
  | none => simp [File.addresses, loadRoutes]
  | some data =>
    simp only [File.addresses, loadRoutes, Option.map_some, Option.getD_some, mem_keys_load]
    simp [Table.keys]

theorem mem_addresses_of_load {py : Str} {f : File} {routes : List (Address × Path)}
    (h : loadRoutes py f = some routes) {a : Address} :
    a ∈ f.addresses py ↔ Table.get routes a ≠ none := by
  rw [File.addresses, h, get_ne_none_iff]
  rfl

/-- The operator's addresses are in the file, and what waits will be noticed. -/
structure Inv (py : Str) (s : System) : Prop where
  listed : ∀ a ∈ s.added, a ∈ s.file.addresses py
  due : ∀ a ∈ s.due, a ∈ s.added
  kept : (∀ mtime, s.pc ≠ .newer mtime) → ∀ a ∈ s.due, Table.get s.table a ≠ none
  noticed : s.Waiting → s.Notices s.file.mtime

theorem inv_started (py : Str) (server : State) (mtime : ℕ) (f : File) :
    Inv py (started server mtime f) where
  listed _ h := absurd h List.not_mem_nil
  due _ h := absurd h List.not_mem_nil
  kept _ _ h := absurd h List.not_mem_nil
  noticed h := h.elim fun _ h => absurd h.1 List.not_mem_nil

theorem System.table_eq {s : System} (hpc : ∀ mtime routes, s.pc ≠ .loaded mtime routes) :
    s.table = s.server.routes := by
  unfold System.table
  split
  next mtime routes h => exact absurd h (hpc mtime routes)
  · rfl

theorem System.notices_iff {s : System} (hpc : s.pc = .idle ∨ s.pc = .changed) (mtime : ℕ) :
    s.Notices mtime ↔ s.routesMtime < mtime := by
  rcases hpc with hpc | hpc <;> rw [System.Notices, hpc]

/-- Where the table of the server counts, it has what was there when the server last looked. -/
theorem Inv.kept_table {py : Str} {s : System} (hi : Inv py s)
    (hpc : ∀ mtime, s.pc ≠ .newer mtime) (htable : s.table = s.server.routes) :
    ∀ a ∈ s.due, Table.get s.server.routes a ≠ none :=
  fun a ha => htable ▸ hi.kept hpc a ha

/-- Where the table of the server counts and nothing waits, it has all that was added. -/
theorem all_routed {s : System} (htable : s.table = s.server.routes) (hwaits : ¬ s.Waiting) :
    ∀ a ∈ s.added, Table.get s.server.routes a ≠ none :=
  fun a ha hnone => hwaits ⟨a, ha, htable ▸ hnone⟩

theorem Inv.kept_file {py : Str} {s : System} (hi : Inv py s) : s.Kept py := by
  have key : (∀ mtime, s.pc ≠ .newer mtime) → s.table = s.server.routes →
      ∀ a ∈ s.due, Table.get s.server.routes a ≠ none ∧ a ∈ s.file.addresses py :=
    fun hpc htable a ha => ⟨hi.kept_table hpc htable a ha, hi.listed a (hi.due a ha)⟩
  unfold System.Kept
  split
  · trivial
  · trivial
  next hn hl => exact key hn (System.table_eq hl)

variable {c : Config} {s t : System}

theorem inv_replace (hi : Inv c.py s) {f : File} (hC : InTime c s (.replace f))
    (h : step c s (.replace f) = some t) : Inv c.py t := by
  obtain rfl := Option.some.inj h
  refine ⟨fun a ha => (List.mem_filter.1 ha).1, fun a ha => ?_, fun hpc a ha => ?_, hC⟩
  · obtain ⟨hdue, hf⟩ := List.mem_filter.1 ha
    exact List.mem_filter.2 ⟨of_decide_eq_true hf, decide_eq_true (Or.inl (hi.due a hdue))⟩
  · exact hi.kept hpc a (List.mem_filter.1 ha).1

theorem inv_look (hi : Inv c.py s) (h : step c s .look = some t) : Inv c.py t := by
  have hpc : s.pc = .idle := by
    by_contra hpc
    simp [step, hpc] at h
  simp only [step, hpc, ne_eq, not_true_eq_false, if_false] at h
  obtain rfl := Option.some.inj h
  have htable : s.table = s.server.routes := System.table_eq (by simp [hpc])
  have hnotices := System.notices_iff (Or.inl hpc) s.file.mtime
  by_cases hlt : s.routesMtime < s.file.mtime
  · rw [if_pos hlt]
    exact ⟨hi.listed, fun a ha => ha, fun hne => absurd rfl (hne s.file.mtime), fun _ => trivial⟩
  · rw [if_neg hlt]
    -- nothing waits, or the file would be newer
    have hnone := all_routed htable fun hwaiting => hlt (hnotices.1 (hi.noticed hwaiting))
    exact ⟨hi.listed, fun a ha => ha, fun _ => hnone,
      fun ⟨a, ha, hwait⟩ => absurd hwait (hnone a ha)⟩

theorem inv_load (hi : Inv c.py s) (h : step c s .load = some t) : Inv c.py t := by
  simp only [step] at h
  split at h
  next mtime hpc =>
    split at h
    next routes hload =>
      obtain rfl := Option.some.inj h
      have hall : ∀ a ∈ s.added, Table.get routes a ≠ none := fun a ha =>
        (mem_addresses_of_load hload).1 (hi.listed a ha)
      exact ⟨hi.listed, hi.due, fun _ a ha => hall a (hi.due a ha),
        fun ⟨a, ha, hwait⟩ => absurd hwait (hall a ha)⟩
    next hload =>
      obtain rfl := Option.some.inj h
      have hempty : ∀ a, a ∉ s.added := fun a ha => by
        have hmem := hi.listed a ha
        simp [File.addresses, hload] at hmem
      exact ⟨hi.listed, hi.due, fun _ a ha => absurd (hi.due a ha) (hempty a),
        fun ⟨a, ha, _⟩ => absurd ha (hempty a)⟩
  · cases h

theorem inv_assign (hi : Inv c.py s) (h : step c s .assign = some t) : Inv c.py t := by
  simp only [step] at h
  split at h
  next mtime routes hpc =>
    obtain rfl := Option.some.inj h
    have htable : s.table = routes := by rw [System.table, hpc]
    have hnotices : s.Notices s.file.mtime ↔ mtime < s.file.mtime := by
      rw [System.Notices, hpc]
    refine ⟨hi.listed, hi.due, fun _ a ha => ?_, fun ⟨a, ha, hwait⟩ => ?_⟩
    · exact htable ▸ hi.kept (fun m hm => by rw [hpc] at hm; cases hm) a ha
    · exact hnotices.1 (hi.noticed ⟨a, ha, htable ▸ hwait⟩)
  · cases h

theorem inv_serve (hi : Inv c.py s) {e : Fatmama.Event} (h : step c s (.serve e) = some t) :
    Inv c.py t := by
  have hpc : s.pc = .idle := by
    by_contra hpc
    simp [step, hpc] at h
  simp only [step, hpc, ne_eq, not_true_eq_false, if_false] at h
  obtain ⟨server, -, rfl⟩ := Option.map_eq_some_iff.1 h
  have htable : s.table = s.server.routes := System.table_eq (by simp [hpc])
  have hnotices := System.notices_iff (Or.inl hpc) s.file.mtime
  have hsurvives : ∀ {l : List Address} {a : Address},
      a ∈ l.filter (fun a => Survives s.server server a) → a ∈ l ∧ Survives s.server server a :=
    fun ha => ⟨(List.mem_filter.1 ha).1, of_decide_eq_true (List.mem_filter.1 ha).2⟩
  generalize hpc' : (if server.routes = s.server.routes then Pc.idle else Pc.changed) = pc
  have hcases : pc = .idle ∨ pc = .changed := by
    rw [← hpc']
    split_ifs
    · exact Or.inl rfl
    · exact Or.inr rfl
  -- the table that counts is the server's, and the time the one it remembers
  have htable' : ∀ added due,
      System.table ⟨server, s.routesMtime, s.file, pc, added, due⟩ = server.routes :=
    fun _ _ => System.table_eq (by rcases hcases with rfl | rfl <;> simp)
  have hnotices' : ∀ added due,
      System.Notices ⟨server, s.routesMtime, s.file, pc, added, due⟩ s.file.mtime ↔
        s.routesMtime < s.file.mtime :=
    fun _ _ => System.notices_iff hcases _
  refine ⟨fun a ha => hi.listed a (hsurvives ha).1, fun a ha => ?_, fun _ a ha => ?_, ?_⟩
  · obtain ⟨hdue, hs⟩ := List.mem_filter.1 ha
    exact List.mem_filter.2 ⟨hi.due a hdue, hs⟩
  · obtain ⟨hdue, hs⟩ := hsurvives ha
    rw [htable']
    exact hs.resolve_right (hi.kept_table (by simp [hpc]) htable a hdue)
  · rintro ⟨a, ha, hwait⟩
    obtain ⟨hadded, hs⟩ := hsurvives ha
    rw [htable'] at hwait
    have hold := hs.resolve_left (not_not.2 hwait)
    exact (hnotices' _ _).2 (hnotices.1 (hi.noticed ⟨a, hadded, htable ▸ hold⟩))

theorem inv_rename (hpy : ∀ w, c.py.lower (c.py.lower w) = c.py.lower w) (hi : Inv c.py s)
    {mtime : ℕ} (hC : InTime c s (.rename mtime)) (h : step c s (.rename mtime) = some t) :
    Inv c.py t := by
  simp only [step] at h
  split_ifs at h with hpc
  rw [not_not] at hpc
  obtain rfl := Option.some.inj h
  have htable : s.table = s.server.routes := System.table_eq (by simp [hpc])
  have hall := all_routed htable hC
  refine ⟨fun a ha => ?_, hi.due, fun _ a ha => hall a (hi.due a ha), fun _ => trivial⟩
  obtain ⟨data, -, k, -, rfl⟩ := mem_addresses.1 (hi.listed a ha)
  exact mem_addresses.2 ⟨s.server.routes, rfl, c.py.lower k, get_ne_none_iff.1 (hall _ ha), hpy k⟩

theorem inv_writeFails (hi : Inv c.py s) (h : step c s .writeFails = some t) : Inv c.py t := by
  simp only [step] at h
  split_ifs at h with hpc
  rw [not_not] at hpc
  obtain rfl := Option.some.inj h
  have htable : s.table = s.server.routes := System.table_eq (by simp [hpc])
  have hnotices := System.notices_iff (Or.inr hpc) s.file.mtime
  refine ⟨hi.listed, hi.due, fun _ => hi.kept_table (by simp [hpc]) htable,
    fun ⟨a, ha, hwait⟩ => ?_⟩
  exact hnotices.1 (hi.noticed ⟨a, ha, htable ▸ hwait⟩)

theorem inv_recordMtime (hi : Inv c.py s) (hC : InTime c s .recordMtime)
    (h : step c s .recordMtime = some t) : Inv c.py t := by
  simp only [step] at h
  split_ifs at h with hpc
  rw [not_not] at hpc
  obtain rfl := Option.some.inj h
  have htable : s.table = s.server.routes := System.table_eq (by simp [hpc])
  have hall := all_routed htable hC
  exact ⟨hi.listed, hi.due, fun _ a ha => hall a (hi.due a ha),
    fun ⟨a, ha, hwait⟩ => absurd hwait (hall a ha)⟩

theorem inv_step (hpy : ∀ w, c.py.lower (c.py.lower w) = c.py.lower w) (s : System) (e : Event)
    (t : System) (hi : Inv c.py s) (hC : InTime c s e) (h : step c s e = some t) : Inv c.py t := by
  cases e with
  | replace f => exact inv_replace hi hC h
  | look => exact inv_look hi h
  | load => exact inv_load hi h
  | assign => exact inv_assign hi h
  | serve e => exact inv_serve hi h
  | rename mtime => exact inv_rename hpy hi hC h
  | writeFails => exact inv_writeFails hi h
  | recordMtime => exact inv_recordMtime hi hC h

/-- In every run that is in time, an address that the operator has added is in the table and in the
file from the next look of the server on, until it is removed. -/
theorem edits_kept (hpy : ∀ w, c.py.lower (c.py.lower w) = c.py.lower w) {server : State}
    {mtime : ℕ} {f : File} {es : List Event}
    (hC : Along (step c) (InTime c) (started server mtime f) es)
    (h : run (step c) (started server mtime f) es = some t) : t.Kept c.py :=
  (run_invariant (inv_step hpy) (inv_started c.py server mtime f) hC h).kept_file

/-! ## A lost edit -/

def sampleConfig : Config := ⟨asciiStr, [ascii "env"], [ascii "axiom"]⟩

def sampleFile : File := ⟨some [(ascii "a@axiom", [ascii "m"])], 1⟩

/-- The operator adds an address. -/
def editedFile : File :=
  ⟨some [(ascii "a@axiom", [ascii "m"]), (ascii "B@axiom", [ascii "n"])], 2⟩

def sampleSystem : System := started ⟨[(ascii "a@axiom", [ascii "m"])], [], []⟩ 1 sampleFile

/-- The server loads the edit before it registers an address. -/
theorem edits_kept_loaded :
    ∃ t, run (step sampleConfig) sampleSystem [.replace editedFile, .look, .load, .assign,
      .serve (.register (ascii "c@axiom")), .rename 3, .recordMtime, .look] = some t ∧
      t.Kept asciiStr := by
  have hr : (run (step sampleConfig) sampleSystem [.replace editedFile, .look, .load, .assign,
      .serve (.register (ascii "c@axiom")), .rename 3, .recordMtime, .look]).isSome := by
    decide +kernel
  obtain ⟨t, ht⟩ := Option.isSome_iff_exists.1 hr
  exact ⟨t, ht, edits_kept (c := sampleConfig)
    (fun w => by
      show (w.map lower).map lower = w.map lower
      rw [List.map_map]
      exact congrArg (List.map · w) (funext lower_lower))
    (by decide +kernel) ht⟩

/-- The edit comes behind the look at the beginning of the connection that registers an address. -/
theorem edit_overwritten :
    ∃ t, run (step sampleConfig) sampleSystem [.look, .replace editedFile,
      .serve (.register (ascii "c@axiom")), .rename 3, .recordMtime, .look] = some t ∧
      ¬ t.Kept asciiStr := by
  have hr : (run (step sampleConfig) sampleSystem [.look, .replace editedFile,
      .serve (.register (ascii "c@axiom")), .rename 3, .recordMtime, .look]).map
      (fun t => decide (t.Kept asciiStr)) = some false := by decide +kernel
  obtain ⟨t, ht, hlost⟩ := Option.map_eq_some_iff.1 hr
  exact ⟨t, ht, of_decide_eq_false hlost⟩

end Fatmama.RouteFile
