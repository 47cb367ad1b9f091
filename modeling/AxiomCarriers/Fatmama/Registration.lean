import AxiomCarriers.Fatmama.Smtp

/-!
# XAXIOM-REGISTER and the disk

A registration makes the directories of a mailbox, sets the route in the table, writes the table to
the routes file, removes the marker of an account that was minted, and logs the route
(`_register_route`, `_persist_routes`, `_mark_registered`).  Each of these can fail; one handler
answers 451 for all but the marker, which is only warned of, and nothing is taken back.

`register_truthful_iff` says from the state before and the outcomes of the file operations when the
answer tells what has happened.  It does when everything works and table, file and directories agree
(`reliable_of_synced`).  For the client of a connection the verb is that of the SMTP server
(`handleRegister_matches`).
-/

namespace Fatmama.Registration

open Bytes

/-- The table in memory, the object in the routes file, `none` when there is none, the directories
that exist, and the markers. -/
structure Registry where
  routes : List (Address × Path)
  file : Option (List (Address × Path))
  dirs : List Path
  markers : List Path
  deriving DecidableEq

/-- What the file operations come to: whether a subdirectory is made, the temporary file is written
and renamed, the routes file looked at, the marker removed; and what an exception says. -/
structure Outcomes where
  mkdir : Bytes → Bool
  write : Bool
  rename : Bool
  stat : Bool
  unlink : Bool
  error : Bytes

/-- The answers of the verb in dev mode. -/
inductive Answer
  | syntaxError
  | outside
  | registered (raw : Address)
  | failed (error : Bytes)
  deriving DecidableEq

def Answer.text : Answer → Bytes
  | .syntaxError => ascii "501 syntax error: XAXIOM-REGISTER <email>\r\n"
  | .outside => ascii "550 5.7.1 cluster domain only (@axiom / @axiom.internal)\r\n"
  | .registered raw => ascii "250 OK " ++ raw ++ ascii " registered\r\n"
  | .failed error => ascii "451 register failed: " ++ error ++ crlf

def subdirs : List Bytes := [ascii "new", ascii "cur", ascii "tmp"]

/-- The loop that makes the subdirectories of the inbox: whether it ends, and the directories. -/
def mkdirs (o : Outcomes) (inbox : Path) : List Bytes → List Path → Bool × List Path
  | [], dirs => (true, dirs)
  | sub :: subs, dirs =>
    if o.mkdir sub then mkdirs o inbox subs ((inbox ++ [sub]) :: dirs) else (false, dirs)

/-- `_persist_routes`: whether it returns, and the state. -/
def persistRoutes (o : Outcomes) (r : Registry) : Bool × Registry :=
  if o.write && o.rename then (o.stat, { r with file := some r.routes }) else (false, r)

/-- `_register_route`: whether a route was added, `none` for an exception, and the state. -/
def registerRoute (c : Config) (o : Outcomes) (r : Registry) (email : Address) :
    Option Bool × Registry :=
  let addr := c.py.norm email
  if ¬ isRegistrable c addr then (none, r)
  else if Table.get r.routes addr ≠ none then (some false, r)
  else
    let inbox := freshMaildir c addr
    match mkdirs o inbox subdirs r.dirs with
    | (false, dirs) => (none, { r with dirs })
    | (true, dirs) =>
      match persistRoutes o { r with dirs, routes := Table.put r.routes addr inbox } with
      | (true, r) => (some true, r)
      | (false, r) => (none, r)

/-- `_mark_registered`: a marker that cannot be removed is only warned of. -/
def markRegistered (c : Config) (o : Outcomes) (r : Registry) (addr : Address) : Registry :=
  match Table.get r.routes (c.py.lower addr) with
  | some maildir =>
    if o.unlink then { r with markers := r.markers.filter (· ≠ marker maildir) } else r
  | none => r

/-- XAXIOM-REGISTER in dev mode. -/
def register (c : Config) (o : Outcomes) (r : Registry) (arg : Bytes) : Answer × Registry :=
  let raw := registerAddress c arg
  if 64 ∉ raw ∨ raw.head? = some 64 ∨ raw.getLast? = some 64 then (.syntaxError, r)
  else if ¬ isClusterRecipient c.py c.domains raw then (.outside, r)
  else
    match registerRoute c o r raw with
    | (none, r) => (.failed o.error, r)
    | (some added, r) =>
      let r := markRegistered c o r raw
      -- the log line of a new route looks it up
      if added ∧ Table.get r.routes raw = none then (.failed o.error, r) else (.registered raw, r)

/-! ## What the answer promises -/

def HasMaildir (r : Registry) (maildir : Path) : Prop := ∀ sub ∈ subdirs, maildir ++ [sub] ∈ r.dirs

/-- After 451 table and file are as they were; after 250 both have the address, and its maildir is
there and not marked. -/
def Truthful (c : Config) (before : Registry) : Answer × Registry → Prop
  | (.failed _, r) => r.routes = before.routes ∧ r.file = before.file
  | (.registered raw, r) =>
    (∃ maildir, Table.get r.routes (c.py.norm raw) = some maildir ∧ HasMaildir r maildir ∧
      marker maildir ∉ r.markers) ∧
    Table.get (r.file.getD []) (c.py.norm raw) ≠ none
  | (.syntaxError, _) | (.outside, _) => True

/-- The marker of the maildir is not there, or is the one that `_mark_registered` looks for, and it
is removed. -/
def Unmarked (c : Config) (o : Outcomes) (markers : List Path) (routes : List (Address × Path))
    (raw : Address) (maildir : Path) : Prop :=
  marker maildir ∉ markers ∨ o.unlink ∧ Table.get routes (c.py.lower raw) = some maildir

/-- A known address is in the file, with its directories; a new one is written to the disk entirely,
or not at all because a directory cannot be made, and is found under the name as it came. -/
def Reliable (c : Config) (o : Outcomes) (r : Registry) (raw : Address) : Prop :=
  match Table.get r.routes (c.py.norm raw) with
  | some maildir =>
    Table.get (r.file.getD []) (c.py.norm raw) ≠ none ∧ HasMaildir r maildir ∧
      Unmarked c o r.markers r.routes raw maildir
  | none =>
    let maildir := freshMaildir c (c.py.norm raw)
    let routes := Table.put r.routes (c.py.norm raw) maildir
    (∃ sub ∈ subdirs, ¬ o.mkdir sub) ∨
      (o.write ∧ o.rename ∧ o.stat) ∧ Table.get routes raw ≠ none ∧
        Unmarked c o r.markers routes raw maildir

/-- The address passes the checks of the verb and of `_register_route`. -/
def Taken (c : Config) (raw : Address) : Prop :=
  ¬ (64 ∉ raw ∨ raw.head? = some 64 ∨ raw.getLast? = some 64) ∧
    isClusterRecipient c.py c.domains raw ∧ isRegistrable c (c.py.norm raw)

variable {c : Config} {o : Outcomes} {r : Registry} {addr : Address} {maildir : Path} {arg : Bytes}

/-! ## The steps -/

theorem mkdirs_spec (o : Outcomes) (inbox : Path) (subs : List Bytes) (dirs : List Path) :
    ((mkdirs o inbox subs dirs).1 = false ∧ ∃ sub ∈ subs, ¬ o.mkdir sub) ∨
    ((mkdirs o inbox subs dirs).1 = true ∧ (∀ sub ∈ subs, o.mkdir sub) ∧
      dirs ⊆ (mkdirs o inbox subs dirs).2 ∧
      ∀ sub ∈ subs, inbox ++ [sub] ∈ (mkdirs o inbox subs dirs).2) := by
  induction subs generalizing dirs with
  | nil => exact Or.inr ⟨rfl, by simp, fun _ h => h, by simp⟩
  | cons sub subs ih =>
    rw [mkdirs]
    split
    · rename_i hmade
      rcases ih ((inbox ++ [sub]) :: dirs)
        with ⟨hfails, sub', hsub', hnot⟩ | ⟨hends, hall, hle, hin⟩
      · exact Or.inl ⟨hfails, sub', List.mem_cons_of_mem sub hsub', hnot⟩
      · refine Or.inr ⟨hends, List.forall_mem_cons.2 ⟨hmade, hall⟩,
          fun d hd => hle (List.mem_cons_of_mem _ hd), List.forall_mem_cons.2 ⟨?_, hin⟩⟩
        exact hle List.mem_cons_self
    · rename_i hnot
      exact Or.inl ⟨rfl, sub, List.mem_cons_self, hnot⟩

/-- Nothing but a marker changes. -/
theorem markRegistered_same : ∃ markers, markRegistered c o r addr = { r with markers } := by
  unfold markRegistered
  split
  · split
    · exact ⟨_, rfl⟩
    · exact ⟨r.markers, rfl⟩
  · exact ⟨r.markers, rfl⟩

@[simp] theorem markRegistered_routes : (markRegistered c o r addr).routes = r.routes := by
  obtain ⟨markers, hsame⟩ := @markRegistered_same c o r addr
  rw [hsame]

@[simp] theorem markRegistered_file : (markRegistered c o r addr).file = r.file := by
  obtain ⟨markers, hsame⟩ := @markRegistered_same c o r addr
  rw [hsame]

@[simp] theorem markRegistered_dirs : (markRegistered c o r addr).dirs = r.dirs := by
  obtain ⟨markers, hsame⟩ := @markRegistered_same c o r addr
  rw [hsame]

theorem marker_inj {p q : Path} : marker p = marker q ↔ p = q := List.append_left_inj _

theorem marker_notMem_iff :
    marker maildir ∉ (markRegistered c o r addr).markers ↔
      Unmarked c o r.markers r.routes addr maildir := by
  unfold markRegistered Unmarked
  cases hget : Table.get r.routes (c.py.lower addr) with
  | none => simp
  | some q =>
    by_cases hunlink : o.unlink
    · simp only [hunlink, if_true, List.mem_filter, decide_eq_true_eq, ne_eq, marker_inj, not_and,
        not_not, true_and, Option.some.injEq]
      constructor
      · intro h
        by_cases hmem : marker maildir ∈ r.markers
        · exact Or.inr (h hmem).symm
        · exact Or.inl hmem
      · rintro (hmem | rfl) h
        · exact absurd h hmem
        · rfl
    · simp [hunlink]

/-- An address that is in the table already. -/
theorem registerRoute_known (hreg : isRegistrable c (c.py.norm addr))
    (hget : Table.get r.routes (c.py.norm addr) = some maildir) :
    registerRoute c o r addr = (some false, r) := by
  rw [registerRoute, if_neg (not_not.2 hreg), if_pos (by simp [hget])]

/-- A new address: a directory cannot be made; the file cannot be written; all is done. -/
theorem registerRoute_new (hreg : isRegistrable c (c.py.norm addr))
    (hget : Table.get r.routes (c.py.norm addr) = none) :
    (∃ sub ∈ subdirs, ¬ o.mkdir sub) ∧
      (∃ dirs, registerRoute c o r addr = (none, { r with dirs })) ∨
    ∃ dirs, (∀ sub ∈ subdirs, o.mkdir sub ∧ freshMaildir c (c.py.norm addr) ++ [sub] ∈ dirs) ∧
      ∃ file, registerRoute c o r addr =
        (if o.write ∧ o.rename ∧ o.stat then some true else none, { r with
          dirs, file
          routes := Table.put r.routes (c.py.norm addr) (freshMaildir c (c.py.norm addr)) }) ∧
      (o.write ∧ o.rename ∧ o.stat → file =
        some (Table.put r.routes (c.py.norm addr) (freshMaildir c (c.py.norm addr)))) := by
  have hspec := mkdirs_spec o (freshMaildir c (c.py.norm addr)) subdirs r.dirs
  rw [registerRoute, if_neg (not_not.2 hreg), if_neg (by simp [hget])]
  rcases hmk : mkdirs o (freshMaildir c (c.py.norm addr)) subdirs r.dirs with ⟨ok, dirs⟩
  rw [hmk] at hspec
  dsimp only
  rw [hmk]
  rcases hspec with ⟨rfl, hnot⟩ | ⟨rfl, hall, -, hin⟩
  · exact Or.inl ⟨hnot, dirs, rfl⟩
  · refine Or.inr ⟨dirs, fun sub hsub => ⟨hall sub hsub, hin sub hsub⟩, ?_⟩
    simp only [persistRoutes]
    cases o.write <;> cases o.rename <;> cases o.stat <;> simp

theorem register_of_none {r' : Registry} (h : Taken c (registerAddress c arg))
    (hroute : registerRoute c o r (registerAddress c arg) = (none, r')) :
    register c o r arg = (.failed o.error, r') := by
  obtain ⟨hangle, hcluster, -⟩ := h
  simp only [register, if_neg hangle, if_neg (not_not.2 hcluster), hroute]

theorem register_of_some {added : Bool} {r' : Registry} (h : Taken c (registerAddress c arg))
    (hroute : registerRoute c o r (registerAddress c arg) = (some added, r')) :
    register c o r arg =
      (if added ∧ Table.get r'.routes (registerAddress c arg) = none then .failed o.error
        else .registered (registerAddress c arg),
        markRegistered c o r' (registerAddress c arg)) := by
  obtain ⟨hangle, hcluster, -⟩ := h
  simp only [register, if_neg hangle, if_neg (not_not.2 hcluster), hroute, markRegistered_routes]
  split <;> rfl

/-! ## On a connection -/

/-- What the file operations come to for the SMTP server. -/
def Outcomes.disk (o : Outcomes) : Disk :=
  if ∃ sub ∈ subdirs, ¬ o.mkdir sub then .noMkdir
  else if o.write ∧ o.rename ∧ o.stat then .ok
  else .noPersist

/-- The registry has the routes of the server, and the markers that are among its files. -/
structure Matches (r : Registry) (s : State) : Prop where
  routes : r.routes = s.routes
  markers : ∀ maildir, marker maildir ∈ r.markers ↔ Table.get s.files (marker maildir) ≠ none

variable {s : State}

/-- Both models register the same, and tell a new address from a known one. -/
theorem registerRoute_matches (h : Matches r s) (email : Address) :
    ∃ s', registerRouteOn c o.disk s email = ((registerRoute c o r email).1.isSome, s') ∧
      Matches (registerRoute c o r email).2 s' ∧
      ∀ added, (registerRoute c o r email).1 = some added → (added ↔ s' ≠ s) := by
  by_cases hreg : isRegistrable c (c.py.norm email)
  case neg =>
    refine ⟨s, ?_, ?_, ?_⟩ <;> simp [registerRouteOn, Fatmama.registerRoute, registerRoute, hreg, h]
  cases hget : Table.get r.routes (c.py.norm email) with
  | some maildir =>
    have hsame : Fatmama.registerRoute c s email = some s := by
      simp [Fatmama.registerRoute, hreg, ← h.routes, hget]
    refine ⟨s, ?_, ?_, ?_⟩ <;> simp [registerRouteOn, hsame, registerRoute_known hreg hget, h]
  | none =>
    let new : State := { s with
      routes := Table.put s.routes (c.py.norm email) (freshMaildir c (c.py.norm email)) }
    have hadded : Fatmama.registerRoute c s email = some new := by
      simp [Fatmama.registerRoute, hreg, ← h.routes, hget, new]
    have hne : new ≠ s := fun he => by
      have hput := Table.get_put_self s.routes (c.py.norm email) (freshMaildir c (c.py.norm email))
      rw [show Table.put s.routes _ _ = s.routes from congrArg State.routes he, ← h.routes,
        hget] at hput
      cases hput
    rcases registerRoute_new (o := o) hreg hget
      with ⟨hnot, dirs, hroute⟩ | ⟨dirs, hmade, file, hroute, -⟩
    · refine ⟨s, ?_, ?_, ?_⟩
      · rw [registerRouteOn, hadded, Outcomes.disk, if_pos hnot, hroute]
        simp [hne]
      · exact hroute ▸ ⟨h.routes, h.markers⟩
      · simp [hroute]
    · have hall : ¬ ∃ sub ∈ subdirs, ¬ o.mkdir sub := by
        rintro ⟨sub, hsub, hnot⟩
        exact hnot (hmade sub hsub).1
      refine ⟨new, ?_, ?_, ?_⟩
      · rw [registerRouteOn, hadded, Outcomes.disk, if_neg hall, hroute]
        split_ifs <;> simp [hne]
      · exact hroute ▸ ⟨by rw [h.routes], h.markers⟩
      · intro added ha
        rw [hroute] at ha
        dsimp only at ha
        split_ifs at ha
        rw [← Option.some.inj ha]
        simpa using hne

/-- The marker of the account goes, where it can be removed. -/
theorem markRegistered_matches (h : Matches r s) (hunlink : o.unlink) :
    Matches (markRegistered c o r addr) (Fatmama.markRegistered c s addr) := by
  unfold markRegistered Fatmama.markRegistered
  rw [← h.routes]
  cases Table.get r.routes (c.py.lower addr) with
  | none => exact h
  | some p =>
    refine ⟨by simp [hunlink, h.routes], fun maildir => ?_⟩
    rcases eq_or_ne (marker p) (marker maildir) with he | hne
    · simp [hunlink, he, Table.get_del_self]
    · simp [hunlink, Table.get_del_of_ne hne, h.markers maildir, hne.symm]

/-- The verb as a command of the SMTP server, when the server is not in production mode, the marker
can be removed, and the file operations and what an exception says are the same: the answer is sent,
and server and registry match again. -/
theorem handleRegister_matches {config : SmtpConfig} (hmode : ¬ config.production) {env : Env}
    {x : Connection} (h : Matches r x.server) (hdisk : env.disk = o.disk)
    (herror : env.error = o.error) (hunlink : o.unlink) :
    (handleRegister config env x arg).out =
        x.out ++ [(register config.toConfig o r arg).1.text] ∧
      Matches (register config.toConfig o r arg).2 (handleRegister config env x arg).server := by
  obtain ⟨s', hserver, hmatches, hadded⟩ :=
    registerRoute_matches (c := config.toConfig) (o := o) h (registerAddress config.toConfig arg)
  simp only [handleRegister, register, if_neg hmode, hdisk, hserver]
  split_ifs with hangle hcluster
  · exact ⟨rfl, h⟩
  · rcases hroute : registerRoute config.toConfig o r (registerAddress config.toConfig arg)
      with ⟨- | added, r'⟩
    · rw [hroute] at hmatches
      simp only [Option.isSome_none]
      exact ⟨by rw [herror]; rfl, hmatches⟩
    · rw [hroute] at hmatches hadded
      simp only [Option.isSome_some, registerAnswer, herror, ← hmatches.routes, ← hadded added rfl,
        markRegistered_routes]
      split_ifs
      · exact ⟨rfl, markRegistered_matches hmatches hunlink⟩
      · exact ⟨rfl, markRegistered_matches hmatches hunlink⟩
  · exact ⟨rfl, h⟩

/-! ## When the answer is true -/

/-- What the answer 250 comes to. -/
theorem truthful_registered_iff {r' : Registry} {raw : Address}
    (hget : Table.get r'.routes (c.py.norm raw) = some maildir) :
    Truthful c r (.registered raw, markRegistered c o r' raw) ↔
      Table.get (r'.file.getD []) (c.py.norm raw) ≠ none ∧ HasMaildir r' maildir ∧
        Unmarked c o r'.markers r'.routes raw maildir := by
  rw [Truthful]
  simp only [markRegistered_routes, markRegistered_file, hget, Option.some.injEq,
    exists_eq_left', HasMaildir, markRegistered_dirs, marker_notMem_iff]
  exact and_comm

/-- An address that is refused changes nothing. -/
theorem truthful_of_not_taken (h : ¬ Taken c (registerAddress c arg)) :
    Truthful c r (register c o r arg) := by
  unfold register
  refine iteInduction (fun _ => trivial) fun hangle => ?_
  refine iteInduction (fun _ => trivial) fun hcluster => ?_
  have hreg : ¬ isRegistrable c (c.py.norm (registerAddress c arg)) := fun hreg =>
    h ⟨hangle, not_not.1 hcluster, hreg⟩
  rw [registerRoute, if_pos hreg]
  exact ⟨rfl, rfl⟩

/-- A known address is answered 250, and only its marker changes. -/
theorem truthful_known (h : Taken c (registerAddress c arg))
    (hget : Table.get r.routes (c.py.norm (registerAddress c arg)) = some maildir) :
    Truthful c r (register c o r arg) ↔ Reliable c o r (registerAddress c arg) := by
  rw [register_of_some h (registerRoute_known h.2.2 hget), if_neg (by simp),
    truthful_registered_iff hget, Reliable, hget]

/-- A new address changes the table as soon as its directories are made. -/
theorem truthful_new (h : Taken c (registerAddress c arg))
    (hget : Table.get r.routes (c.py.norm (registerAddress c arg)) = none) :
    Truthful c r (register c o r arg) ↔ Reliable c o r (registerAddress c arg) := by
  rw [Reliable, hget]
  rcases registerRoute_new (o := o) h.2.2 hget
    with ⟨hnot, dirs, hroute⟩ | ⟨dirs, hmade, file, hroute, hfile⟩
  · rw [register_of_none h hroute]
    exact iff_of_true ⟨rfl, rfl⟩ (Or.inl hnot)
  have hall : ¬ ∃ sub ∈ subdirs, ¬ o.mkdir sub := by
    rintro ⟨sub, hsub, hnot⟩
    exact hnot (hmade sub hsub).1
  rw [or_iff_right hall]
  -- The table is another one now, so that 451 would not be true.
  have hput : Table.put r.routes (c.py.norm (registerAddress c arg))
      (freshMaildir c (c.py.norm (registerAddress c arg))) ≠ r.routes := by
    intro he
    rw [← he, Table.get_put_self] at hget
    cases hget
  by_cases hdisk : o.write ∧ o.rename ∧ o.stat
  · rw [if_pos hdisk] at hroute
    rw [register_of_some h hroute, hfile hdisk, and_iff_right hdisk]
    by_cases hraw : Table.get (Table.put r.routes (c.py.norm (registerAddress c arg))
        (freshMaildir c (c.py.norm (registerAddress c arg)))) (registerAddress c arg) = none
    · rw [if_pos ⟨rfl, hraw⟩]
      refine iff_of_false (fun ht => hput ?_) fun hrel => hrel.1 hraw
      simpa using ht.1
    · rw [if_neg (fun hadded => hraw hadded.2), truthful_registered_iff (Table.get_put_self _ _ _)]
      rw [Option.getD_some, Table.get_put_self]
      exact ⟨fun ht => ⟨hraw, ht.2.2⟩,
        fun hrel => ⟨by simp, fun sub hsub => (hmade sub hsub).2, hrel.2⟩⟩
  · rw [if_neg hdisk] at hroute
    rw [register_of_none h hroute]
    exact iff_of_false (fun ht => hput ht.1) fun hrel => hdisk hrel.1

/-- The answer is true if and only if, for an address that passes the checks, the state and the
outcomes of the file operations are as `Reliable` says. -/
theorem register_truthful_iff (c : Config) (o : Outcomes) (r : Registry) (arg : Bytes) :
    Truthful c r (register c o r arg) ↔
      (Taken c (registerAddress c arg) → Reliable c o r (registerAddress c arg)) := by
  by_cases h : Taken c (registerAddress c arg)
  · rw [forall_prop_of_true h]
    cases hget : Table.get r.routes (c.py.norm (registerAddress c arg)) with
    | some maildir => exact truthful_known h hget
    | none => exact truthful_new h hget
  · rw [forall_prop_of_false h, iff_true]
    exact truthful_of_not_taken h

/-- The table is what the file says, and every route has its maildir. -/
structure Synced (r : Registry) : Prop where
  file : r.file = some r.routes
  dirs : ∀ a maildir, Table.get r.routes a = some maildir → HasMaildir r maildir

/-- In a state where table, file and directories agree every answer is true, if all operations
succeed and the address has no blanks around it. -/
theorem reliable_of_synced (h : Synced r) (hunlink : o.unlink)
    (hdisk : o.write ∧ o.rename ∧ o.stat) {raw : Address} (hnorm : c.py.norm raw = raw)
    (hlower : c.py.lower raw = raw) : Reliable c o r raw := by
  rw [Reliable, hnorm]
  cases hget : Table.get r.routes raw with
  | some maildir =>
    refine ⟨?_, h.dirs raw maildir hget, Or.inr ⟨hunlink, hlower.symm ▸ hget⟩⟩
    rw [h.file, Option.getD_some, hget]
    exact Option.some_ne_none maildir
  | none =>
    refine Or.inr ⟨hdisk, ?_, Or.inr ⟨hunlink, ?_⟩⟩
    · rw [Table.get_put_self]
      exact Option.some_ne_none _
    · rw [hlower, Table.get_put_self]

/-- The routes file cannot be renamed: the answer is 451, and the route is in the table. -/
theorem register_untruthful :
    (register ⟨asciiStr, [ascii "env"], [ascii "axiom"]⟩
        ⟨fun _ => true, true, false, true, true, ascii "disk full"⟩ ⟨[], some [], [], []⟩
        (ascii " <a@axiom>")).1 = .failed (ascii "disk full") ∧
    ¬ Truthful ⟨asciiStr, [ascii "env"], [ascii "axiom"]⟩ ⟨[], some [], [], []⟩
      (register ⟨asciiStr, [ascii "env"], [ascii "axiom"]⟩
        ⟨fun _ => true, true, false, true, true, ascii "disk full"⟩ ⟨[], some [], [], []⟩
        (ascii " <a@axiom>")) := by
  have hregister : register ⟨asciiStr, [ascii "env"], [ascii "axiom"]⟩
      ⟨fun _ => true, true, false, true, true, ascii "disk full"⟩ ⟨[], some [], [], []⟩
      (ascii " <a@axiom>") = (.failed (ascii "disk full"),
        ⟨[(ascii "a@axiom", [ascii "env", ascii "fatmama-mailbox-a-axiom", ascii "inbox"])],
          some [], [ascii "tmp", ascii "cur", ascii "new"].map fun sub =>
            [ascii "env", ascii "fatmama-mailbox-a-axiom", ascii "inbox", sub], []⟩) := by
    decide +kernel
  rw [hregister]
  exact ⟨rfl, fun h => absurd h.1 (by decide)⟩

end Fatmama.Registration
