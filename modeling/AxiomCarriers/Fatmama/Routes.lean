import AxiomCarriers.Fatmama.Addresses
import AxiomCarriers.Lib.Run
import AxiomCarriers.Lib.Table

/-!
# The routes and mailboxes of FATMAMA

The route table gives every registered address the maildir its mail goes to.  Addresses are
registered by SMTP or on first mail (`registerRoute`), deleted over HTTP (`deleteRoutes`,
`wipeAllRoutes`), and reclaimed when a POP3 session has emptied a mailbox (`reclaim`).  The maildir
of a new address is named by its slug, and two addresses can have one slug.
-/

namespace Fatmama

open Bytes Runs

/-- The components of a path. -/
abbrev Path := List Bytes

instance : LawfulBEq Path := inferInstance

/-- What the server is started with: `base` is the directory of the routes file, `domains` are the
domains it takes mail for. -/
structure Config where
  py : Str
  base : Path
  domains : List Bytes

/-- A POP3 session: its mailbox, the messages found at USER, and the numbers marked by DELE, each
with the mailbox that was open then. -/
structure Session where
  mailbox : Address
  snapshot : List Path
  deleted : List (ℕ × Address)
  deriving DecidableEq

/-- The routes, the files, and the POP3 sessions. -/
structure State where
  routes : List (Address × Path)
  files : List (Path × Bytes)
  sessions : List (ℕ × Session)
  deriving DecidableEq

/-! ## Mailboxes -/

/-- What the name of a managed mailbox begins with. -/
def managedPrefix : Bytes := ascii "fatmama-mailbox-"

/-- `_is_fatmama_managed_mailbox`: the parent directory is named `fatmama-mailbox-<slug>`. -/
def isManaged (maildir : Path) : Bool := managedPrefix <+: (maildir.dropLast.getLast?).getD []

/-- `_is_protected_route`. -/
def isProtected (maildir : Path) : Bool :=
  maildir.any (ascii "axiom-first-penguin-" <:+: ·) || !isManaged maildir

/-- The file lies directly in one of the subdirectories of the maildir. -/
def isIn (maildir : Path) (subs : List Bytes) (path : Path) : Bool :=
  subs.any fun sub => path.dropLast = maildir ++ [sub]

/-- The name of the marker of an account that the server has minted by itself. -/
def autoMarker : Bytes := ascii ".fatmama-auto"

/-- `_marker_path`. -/
def marker (maildir : Path) : Path := maildir ++ [autoMarker]

/-- The file is mail of the maildir. -/
def isMail (maildir path : Path) : Bool :=
  isIn maildir [ascii "new", ascii "cur", ascii "tmp"] path && path.getLast? ≠ some autoMarker

/-! ## Registration -/

/-- The maildir that `_register_route` makes for an address. -/
def freshMaildir (c : Config) (addr : Address) : Path :=
  c.base ++ [managedPrefix ++ slug addr, ascii "inbox"]

/-- The addresses that `_register_route` takes: with a local part, a domain, and in the cluster. -/
def isRegistrable (c : Config) (addr : Address) : Bool :=
  64 ∈ addr && addr.head? ≠ some 64 && (addr.dropWhile (· ≠ 64)).tail ≠ [] &&
    isClusterRecipient c.py c.domains addr

/-- `_register_route`; `none` for an address that is not taken. -/
def registerRoute (c : Config) (s : State) (email : Address) : Option State :=
  let addr := c.py.norm email
  if ¬ isRegistrable c addr then none
  else if Table.get s.routes addr ≠ none then some s
  else some { s with routes := Table.put s.routes addr (freshMaildir c addr) }

/-- `_mark_registered`: the account is not reclaimed any more. -/
def markRegistered (c : Config) (s : State) (addr : Address) : State :=
  match Table.get s.routes (c.py.lower addr) with
  | some maildir => { s with files := Table.del s.files (marker maildir) }
  | none => s

/-- `_mark_auto`: the account may be reclaimed. -/
def markAuto (c : Config) (s : State) (addr : Address) : State :=
  match Table.get s.routes (c.py.lower addr) with
  | some maildir => { s with files := Table.put s.files (marker maildir) [] }
  | none => s

/-- The address of XAXIOM-REGISTER. -/
def registerAddress (c : Config) (arg : Bytes) : Address :=
  c.py.lower (stripChars (ascii "<>") (c.py.strip arg))

def register (c : Config) (s : State) (arg : Bytes) : State :=
  let raw := registerAddress c arg
  if 64 ∉ raw ∨ raw.head? = some 64 ∨ raw.getLast? = some 64 then s
  else if ¬ isClusterRecipient c.py c.domains raw then s
  else match registerRoute c s raw with
    | some s' => markRegistered c s' raw
    | none => s

/-- The account that the first mail to an address mints. -/
def autoCreate (c : Config) (s : State) (rcptTo : Address) : State :=
  match registerRoute c s rcptTo with
  | some s' => markAuto c s' rcptTo
  | none => s

/-! ## Deletion -/

/-- `_clear_maildir_contents`. -/
def clearMaildir (files : List (Path × Bytes)) (maildir : Path) : List (Path × Bytes) :=
  files.filter fun p => !isIn maildir [ascii "new", ascii "cur", ascii "tmp"] p.1

/-- `shutil.rmtree`: the files in the directory and below. -/
def rmtree (files : List (Path × Bytes)) (dir : Path) : List (Path × Bytes) :=
  files.filter fun p => !decide (dir <+: p.1.dropLast)

/-- The loop of `_delete_routes` on one address. -/
def deleteRoute (c : Config) (withMaildir : Bool) (s : State) (raw : Address) : State :=
  let addr := c.py.norm raw
  match Table.get s.routes addr with
  | none => s
  | some maildir =>
    if addr = [] ∨ isProtected maildir then s
    else { s with
      routes := Table.del s.routes addr
      files :=
        if withMaildir then
          if isManaged maildir then rmtree (clearMaildir s.files maildir) maildir.dropLast
          else clearMaildir s.files maildir
        else s.files }

def deleteRoutes (c : Config) (withMaildir : Bool) (s : State) (addrs : List Address) : State :=
  addrs.foldl (deleteRoute c withMaildir) s

def wipeAllRoutes (c : Config) (withMaildirs : Bool) (s : State) : State :=
  deleteRoutes c withMaildirs s (Table.keys s.routes)

/-- `_mailbox_is_empty`. -/
def isEmptyMailbox (s : State) (maildir : Path) : Bool :=
  (Table.keys s.files).all fun p => !isIn maildir [ascii "new", ascii "cur"] p

/-- The account was minted by the server, is the server's to remove, and holds no mail. -/
def isReclaimable (s : State) (maildir : Path) : Bool :=
  (Table.get s.files (marker maildir)).isSome && isManaged maildir && !isProtected maildir &&
    isEmptyMailbox s maildir

/-- The account reclamation at the end of a session that has deleted mail. -/
def reclaim (c : Config) (s : State) (mailbox : Address) : State :=
  match Table.get s.routes mailbox with
  | some maildir => if isReclaimable s maildir then deleteRoutes c true s [mailbox] else s
  | none => s

/-! ## POP3 -/

/-- The messages that a session of the mailbox sees: the files in `new/`. -/
def snapshot (s : State) (mailbox : Address) : List Path :=
  match Table.get s.routes mailbox with
  | some maildir => (Table.keys s.files).filter (isIn maildir [ascii "new"])
  | none => []

/-- The message that a number of the session stands for. -/
def Session.message (x : Session) (n : ℕ) : Option Path :=
  if n = 0 then none else x.snapshot[n - 1]?

/-- QUIT unlinks the messages marked as deleted. -/
def unlinkDeleted (s : State) (x : Session) : State :=
  { s with files := (x.deleted.filterMap fun n => x.message n.1).foldl Table.del s.files }

def quit (c : Config) (s : State) (x : Session) : State :=
  if x.deleted = [] then unlinkDeleted s x else reclaim c (unlinkDeleted s x) x.mailbox

/-! ## The server -/

inductive Event
  /-- XAXIOM-REGISTER. -/
  | register (arg : Bytes)
  /-- The first mail to an address that is not registered. -/
  | autoCreate (rcptTo : Address)
  /-- A message is stored, under a name of its own. -/
  | deliver (rcptTo : Address) (name message : Bytes)
  | delete (addrs : List Address) (withMaildir : Bool)
  | wipe (withMaildirs : Bool)
  | user (session : ℕ) (arg : Bytes)
  | dele (session n : ℕ)
  | rset (session : ℕ)
  | quit (session : ℕ)
  /-- The session ends without QUIT. -/
  | drop (session : ℕ)
  deriving DecidableEq

/-- A session of the server after a command. -/
def State.setSession (s : State) (session : ℕ) (x : Session) : State :=
  { s with sessions := Table.put s.sessions session x }

def step (c : Config) (s : State) : Event → Option State
  | .register arg => some (register c s arg)
  | .autoCreate rcptTo =>
    if Table.get s.routes rcptTo = none then some (autoCreate c s rcptTo) else none
  | .deliver rcptTo name message =>
    match Table.get s.routes rcptTo with
    | some maildir =>
      let path := maildir ++ [ascii "new", name]
      if Table.get s.files path = none ∧ ∀ x ∈ s.sessions, path ∉ x.2.snapshot then
        some { s with files := Table.put s.files path message }
      else none
    | none => none
  | .delete addrs withMaildir => some (deleteRoutes c withMaildir s addrs)
  | .wipe withMaildirs => some (wipeAllRoutes c withMaildirs s)
  | .user session arg =>
    if c.py.strip arg = arg then
      let mailbox := c.py.lower arg
      let deleted := ((Table.get s.sessions session).map (·.deleted)).getD []
      some (s.setSession session ⟨mailbox, snapshot s mailbox, deleted⟩)
    else none
  | .dele session n =>
    match Table.get s.sessions session with
    | some x =>
      if x.message n = none ∨ n ∈ x.deleted.map (·.1) then some s
      else some (s.setSession session { x with deleted := x.deleted ++ [(n, x.mailbox)] })
    | none => none
  | .rset session =>
    match Table.get s.sessions session with
    | some x => some (s.setSession session { x with deleted := [] })
    | none => none
  | .quit session =>
    match Table.get s.sessions session with
    | some x => some { quit c s x with sessions := Table.del s.sessions session }
    | none => none
  | .drop session => some { s with sessions := Table.del s.sessions session }

/-! ## Maildirs and their mail -/

/-- A file lies directly in the subdirectories of one maildir only. -/
theorem isIn_unique {p q f : Path} {subs subs' : List Bytes} (hp : isIn p subs f)
    (hq : isIn q subs' f) : p = q := by
  simp only [isIn, List.any_eq_true, decide_eq_true_eq] at hp hq
  obtain ⟨sub, -, hp⟩ := hp
  obtain ⟨sub', -, hq⟩ := hq
  exact (List.append_inj' (hp.symm.trans hq) rfl).1

theorem isIn_of_isMail {q f : Path} (h : isMail q f) :
    isIn q [ascii "new", ascii "cur", ascii "tmp"] f := (Bool.and_eq_true_iff.1 h).1

theorem isIn_new (p : Path) (name : Bytes) : isIn p [ascii "new"] (p ++ [ascii "new", name]) := by
  have h : p ++ [ascii "new", name] = (p ++ [ascii "new"]) ++ [name] := by
    rw [List.append_assoc, List.singleton_append]
  rw [isIn, h, List.dropLast_concat, List.any_cons, decide_eq_true rfl, Bool.true_or]

theorem ne_marker_of_isMail {p q f : Path} (h : isMail q f) : marker p ≠ f := by
  rintro rfl
  simp [isMail, marker] at h

/-- A managed directory with mail of a maildir below it has the maildir below it. -/
theorem prefix_of_isMail {p q f : Path} (hp : isManaged p) (hf : isMail q f)
    (h : p.dropLast <+: f.dropLast) : p.dropLast <+: q := by
  have hf := isIn_of_isMail hf
  simp only [isIn, List.any_eq_true, decide_eq_true_eq] at hf
  obtain ⟨sub, hsub, hf⟩ := hf
  rw [hf, List.prefix_concat_iff] at h
  refine h.resolve_left fun he => ?_
  -- the subdirectories of a maildir are not named like a managed directory
  have hno : ∀ sub ∈ [ascii "new", ascii "cur", ascii "tmp"], ¬ managedPrefix <+: sub := by
    simp [managedPrefix, ascii]
  rw [isManaged, he, List.getLast?_concat] at hp
  exact hno sub hsub (of_decide_eq_true hp)

/-- What a registration can do. -/
theorem registerRoute_cases {c : Config} {s s' : State} {email : Address}
    (h : registerRoute c s email = some s') :
    s' = s ∨ Table.get s.routes (c.py.norm email) = none ∧ isRegistrable c (c.py.norm email) ∧
      s' = { s with
        routes := Table.put s.routes (c.py.norm email) (freshMaildir c (c.py.norm email)) } := by
  simp only [registerRoute] at h
  split_ifs at h with hreg hr
  · exact Or.inl (Option.some.inj h).symm
  · exact Or.inr ⟨not_not.1 hr, hreg, (Option.some.inj h).symm⟩

/-- The files agree on mail. -/
def SameMail (files files' : List (Path × Bytes)) : Prop :=
  ∀ q f, isMail q f → Table.get files' f = Table.get files f

theorem SameMail.refl (files : List (Path × Bytes)) : SameMail files files := fun _ _ _ => rfl

@[simp] theorem markRegistered_routes (c : Config) (s : State) (addr : Address) :
    (markRegistered c s addr).routes = s.routes := by
  unfold markRegistered
  split <;> rfl

@[simp] theorem markAuto_routes (c : Config) (s : State) (addr : Address) :
    (markAuto c s addr).routes = s.routes := by
  unfold markAuto
  split <;> rfl

@[simp] theorem markAuto_sessions (c : Config) (s : State) (addr : Address) :
    (markAuto c s addr).sessions = s.sessions := by
  unfold markAuto
  split <;> rfl

theorem sameMail_markRegistered (c : Config) (s : State) (addr : Address) :
    SameMail s.files (markRegistered c s addr).files := by
  unfold markRegistered
  split
  · exact fun q f hf => Table.get_del_of_ne (ne_marker_of_isMail hf) _
  · exact SameMail.refl s.files

theorem sameMail_markAuto (c : Config) (s : State) (addr : Address) :
    SameMail s.files (markAuto c s addr).files := by
  unfold markAuto
  split
  · exact fun q f hf => Table.get_put_of_ne (ne_marker_of_isMail hf) _ _
  · exact SameMail.refl s.files

end Fatmama
