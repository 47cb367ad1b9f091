import AxiomCarriers.Fatmama.Isolation

/-!
# The report of a deletion

`_delete_routes` goes through a list of addresses while it changes the table, and reports each item
as deleted, not found or protected; wiping all routes and reclaiming an account go through it.  The
disk decides which files it can remove.

Every item gets one verdict, on the table as it is when its turn comes (`verdicts`), and the table
afterwards is the one before without what was deleted (`fold_spec`).  A protected route keeps its
entry, and its files as long as no maildir lies in the mailbox directory of another (`kept_fold`).
-/

namespace Fatmama.Deletion

open Bytes

/-- How the cleaning of a maildir goes: the files that cannot be removed, and an exception that ends
it before the mailbox directory is removed. -/
structure Cleaning where
  stays : Path → Bool
  raised : Option String

/-- What becomes of an item. -/
inductive Verdict
  | deleted (addr : Address) (maildir : Path)
  | notFound (raw : Address)
  | protectedRoute (addr : Address) (maildir : Path)
  deriving DecidableEq

/-- The summary of `_delete_routes`. -/
structure Report where
  deleted : List (Address × Path)
  notFound : List Address
  protectedRoutes : List (Address × Path × String)
  errors : List (Address × String)
  filesDeleted : ℕ
  dirsRemoved : ℕ
  remaining : ℕ
  deriving DecidableEq

def protectedReason : String := "validator route (axiom-first-penguin)"

/-- `_clear_maildir_contents` and, for a managed mailbox, `shutil.rmtree` of its directory: the
files afterwards, and what the report counts. -/
def cleanMaildir (how : Cleaning) (files : List (Path × Bytes)) (maildir : Path) (r : Report)
    (addr : Address) : List (Path × Bytes) × Report :=
  let cleared := files.filter fun f =>
    how.stays f.1 || !isIn maildir [ascii "new", ascii "cur", ascii "tmp"] f.1
  match how.raised with
  | some e => (cleared, { r with errors := r.errors ++ [(addr, "maildir cleanup: " ++ e)] })
  | none =>
    let r := { r with filesDeleted := r.filesDeleted + (files.length - cleared.length) }
    if isManaged maildir then
      (cleared.filter fun f => how.stays f.1 || !decide (maildir.dropLast <+: f.1.dropLast),
        { r with dirsRemoved := r.dirsRemoved + 1 })
    else (cleared, r)

def verdict (c : Config) (routes : List (Address × Path)) (raw : Address) : Verdict :=
  let addr := c.py.norm raw
  match Table.get routes addr with
  | none => .notFound raw
  | some maildir =>
    if addr = [] then .notFound raw
    else if isProtected maildir then .protectedRoute addr maildir
    else .deleted addr maildir

/-- The loop of `_delete_routes` on one item. -/
def deleteOne (c : Config) (withMaildir : Bool) (how : Address → Cleaning) (d : State × Report)
    (raw : Address) : State × Report :=
  match verdict c d.1.routes raw with
  | .notFound raw => (d.1, { d.2 with notFound := d.2.notFound ++ [raw] })
  | .protectedRoute addr maildir =>
    (d.1, { d.2 with
      protectedRoutes := d.2.protectedRoutes ++ [(addr, maildir, protectedReason)] })
  | .deleted addr maildir =>
    let s := { d.1 with routes := Table.del d.1.routes addr }
    let r := { d.2 with deleted := d.2.deleted ++ [(addr, maildir)] }
    if withMaildir then
      let (files, r) := cleanMaildir (how addr) s.files maildir r addr
      ({ s with files }, r)
    else (s, r)

/-- `_delete_routes`: the summary, unless `_persist_routes` raises, and the state. -/
def deleteRoutes (c : Config) (withMaildir : Bool) (how : Address → Cleaning)
    (persistError : Option String) (s : State) (addrs : List Address) :
    Except String Report × State :=
  let d := addrs.foldl (deleteOne c withMaildir how) (s, ⟨[], [], [], [], 0, 0, 0⟩)
  match persistError with
  | some e =>
    if d.2.deleted ≠ [] then (.error e, d.1)
    else (.ok { d.2 with remaining := d.1.routes.length }, d.1)
  | none => (.ok { d.2 with remaining := d.1.routes.length }, d.1)

/-- A request over HTTP, or the reclamation at the end of a POP3 session. -/
inductive Request
  | delete (addrs : List Address) (withMaildir : Bool)
  | wipe (withMaildirs : Bool)
  | reclaim (mailbox : Address)

/-- The items of the request. -/
def Request.addrs (s : State) : Request → List Address
  | .delete addrs _ => addrs
  | .wipe _ => Table.keys s.routes
  | .reclaim mailbox =>
    match Table.get s.routes mailbox with
    | some maildir => if isReclaimable s maildir then [mailbox] else []
    | none => []

def Request.withMaildir : Request → Bool
  | .delete _ withMaildir | .wipe withMaildir => withMaildir
  | .reclaim _ => true

def perform (c : Config) (how : Address → Cleaning) (persistError : Option String) (s : State)
    (q : Request) : Except String Report × State :=
  deleteRoutes c q.withMaildir how persistError s (q.addrs s)

variable {c : Config} {withMaildir : Bool} {how : Address → Cleaning} {s t u : State}
  {d : State × Report} {raw : Address}

/-! ## The verdicts -/

def Verdict.toDeleted : Verdict → Option (Address × Path)
  | .deleted addr maildir => some (addr, maildir)
  | .notFound _ | .protectedRoute _ _ => none

def Verdict.toNotFound : Verdict → Option Address
  | .notFound raw => some raw
  | .deleted _ _ | .protectedRoute _ _ => none

def Verdict.toProtected : Verdict → Option (Address × Path × String)
  | .protectedRoute addr maildir => some (addr, maildir, protectedReason)
  | .deleted _ _ | .notFound _ => none

/-- The table after the verdict. -/
def Verdict.apply (routes : List (Address × Path)) : Verdict → List (Address × Path)
  | .deleted addr _ => Table.del routes addr
  | .notFound _ | .protectedRoute _ _ => routes

/-- The verdicts on the items, each on the table that the ones before it have left. -/
def verdicts (c : Config) : List (Address × Path) → List Address → List Verdict
  | _, [] => []
  | routes, raw :: addrs =>
    verdict c routes raw :: verdicts c ((verdict c routes raw).apply routes) addrs

/-- The addresses that the verdicts delete. -/
def deletedAddrs (vs : List Verdict) : List Address := (vs.filterMap Verdict.toDeleted).map Prod.fst

theorem cleanMaildir_lists (how : Cleaning) (files : List (Path × Bytes)) (maildir : Path)
    (r : Report) (addr : Address) :
    (cleanMaildir how files maildir r addr).2.deleted = r.deleted ∧
    (cleanMaildir how files maildir r addr).2.notFound = r.notFound ∧
    (cleanMaildir how files maildir r addr).2.protectedRoutes = r.protectedRoutes := by
  unfold cleanMaildir
  cases how.raised with
  | some e => exact ⟨rfl, rfl, rfl⟩
  | none => cases isManaged maildir <;> exact ⟨rfl, rfl, rfl⟩

/-- The table without what the verdicts delete. -/
def without (routes : List (Address × Path)) (vs : List Verdict) : List (Address × Path) :=
  routes.filter fun e => e.1 ∉ deletedAddrs vs

/-- What an item does to the table and to the lists of the report. -/
theorem deleteOne_spec (d : State × Report) (raw : Address) :
    (deleteOne c withMaildir how d raw).1.routes = (verdict c d.1.routes raw).apply d.1.routes ∧
    (deleteOne c withMaildir how d raw).2.deleted =
      d.2.deleted ++ (verdict c d.1.routes raw).toDeleted.toList ∧
    (deleteOne c withMaildir how d raw).2.notFound =
      d.2.notFound ++ (verdict c d.1.routes raw).toNotFound.toList ∧
    (deleteOne c withMaildir how d raw).2.protectedRoutes =
      d.2.protectedRoutes ++ (verdict c d.1.routes raw).toProtected.toList := by
  unfold deleteOne
  cases verdict c d.1.routes raw with
  | notFound raw => simp [Verdict.apply, Verdict.toDeleted, Verdict.toNotFound, Verdict.toProtected]
  | protectedRoute addr maildir =>
    simp [Verdict.apply, Verdict.toDeleted, Verdict.toNotFound, Verdict.toProtected]
  | deleted addr maildir =>
    cases withMaildir with
    | false => simp [Verdict.apply, Verdict.toDeleted, Verdict.toNotFound, Verdict.toProtected]
    | true =>
      simp [Verdict.apply, Verdict.toDeleted, Verdict.toNotFound, Verdict.toProtected,
        cleanMaildir_lists]

theorem filterMap_cons_toList {α β : Type} (f : α → Option β) (a : α) (as : List α) :
    (a :: as).filterMap f = (f a).toList ++ as.filterMap f := by
  rw [List.filterMap_cons]
  cases f a <;> rfl

theorem without_apply (routes : List (Address × Path)) (v : Verdict) (vs : List Verdict) :
    without (v.apply routes) vs = without routes (v :: vs) := by
  cases v with
  | notFound raw => rfl
  | protectedRoute addr maildir => rfl
  | deleted addr maildir =>
    have hcons : deletedAddrs (.deleted addr maildir :: vs) = addr :: deletedAddrs vs := rfl
    rw [without, without, Verdict.apply, Table.del, List.filter_filter, hcons]
    refine List.filter_congr fun e _ => ?_
    simp [Bool.and_comm]

theorem get_without (routes : List (Address × Path)) (vs : List Verdict) (a : Address) :
    Table.get (without routes vs) a =
      if a ∈ deletedAddrs vs then none else Table.get routes a := by
  rw [without, Table.get_filter routes (fun a => decide (a ∉ deletedAddrs vs))]
  by_cases h : a ∈ deletedAddrs vs <;> simp [h]

/-- The loop collects the verdicts, and the table is the one before without what was deleted. -/
theorem fold_spec (addrs : List Address) (d : State × Report) :
    (addrs.foldl (deleteOne c withMaildir how) d).1.routes =
      without d.1.routes (verdicts c d.1.routes addrs) ∧
    (addrs.foldl (deleteOne c withMaildir how) d).2.deleted =
      d.2.deleted ++ (verdicts c d.1.routes addrs).filterMap Verdict.toDeleted ∧
    (addrs.foldl (deleteOne c withMaildir how) d).2.notFound =
      d.2.notFound ++ (verdicts c d.1.routes addrs).filterMap Verdict.toNotFound ∧
    (addrs.foldl (deleteOne c withMaildir how) d).2.protectedRoutes =
      d.2.protectedRoutes ++ (verdicts c d.1.routes addrs).filterMap Verdict.toProtected := by
  induction addrs generalizing d with
  | nil => simp [verdicts, without, deletedAddrs]
  | cons raw addrs ih =>
    obtain ⟨hroutes, hdeleted, hnotFound, hprotected⟩ := ih (deleteOne c withMaildir how d raw)
    obtain ⟨hroutes', hdeleted', hnotFound', hprotected'⟩ :=
      @deleteOne_spec c withMaildir how d raw
    rw [hroutes'] at hroutes hdeleted hnotFound hprotected
    simp only [List.foldl_cons, verdicts, filterMap_cons_toList]
    refine ⟨?_, ?_, ?_, ?_⟩
    · rw [hroutes, without_apply]
    · rw [hdeleted, hdeleted', List.append_assoc]
    · rw [hnotFound, hnotFound', List.append_assoc]
    · rw [hprotected, hprotected', List.append_assoc]

/-- The verdict is about the item, and true of the tables before and after. -/
def Verdict.About (c : Config) (before after : List (Address × Path)) : Verdict → Address → Prop
  | .deleted addr maildir, raw => addr = c.py.norm raw ∧ Table.get before addr = some maildir ∧
      ¬ isProtected maildir ∧ Table.get after addr = none
  | .notFound item, raw =>
    item = raw ∧ (c.py.norm raw = [] ∨ Table.get after (c.py.norm raw) = none)
  | .protectedRoute addr maildir, raw => addr = c.py.norm raw ∧
      Table.get before addr = some maildir ∧ isProtected maildir

theorem get_of_get_apply {routes : List (Address × Path)} {v : Verdict} {a : Address}
    {maildir : Path} (h : Table.get (v.apply routes) a = some maildir) :
    Table.get routes a = some maildir := by
  cases v with
  | deleted addr _ => exact (Table.get_of_get_del h).2
  | notFound raw => exact h
  | protectedRoute addr _ => exact h

theorem verdict_about {before routes : List (Address × Path)} {vs : List Verdict}
    (hle : ∀ a maildir, Table.get routes a = some maildir → Table.get before a = some maildir)
    (raw : Address) :
    (verdict c routes raw).About c before (without routes (verdict c routes raw :: vs)) raw := by
  unfold verdict
  dsimp only
  split
  · rename_i hget
    refine ⟨rfl, Or.inr ?_⟩
    rw [get_without, hget, ite_self]
  · rename_i maildir hget
    split_ifs with hempty hprotected
    · exact ⟨rfl, Or.inl hempty⟩
    · exact ⟨rfl, hle _ _ hget, hprotected⟩
    · refine ⟨rfl, hle _ _ hget, hprotected, ?_⟩
      rw [get_without, if_pos]
      exact List.mem_cons_self

theorem verdicts_about {before routes : List (Address × Path)} (addrs : List Address)
    (hle : ∀ a maildir, Table.get routes a = some maildir → Table.get before a = some maildir) :
    List.Forall₂ (Verdict.About c before (without routes (verdicts c routes addrs)))
      (verdicts c routes addrs) addrs := by
  induction addrs generalizing routes with
  | nil => exact .nil
  | cons raw addrs ih =>
    refine .cons (verdict_about hle raw) ?_
    have hrest := @ih ((verdict c routes raw).apply routes) fun a maildir h =>
      hle a maildir (get_of_get_apply h)
    rwa [without_apply] at hrest

/-! ## What is protected -/

/-- The directory of a mailbox: the parent of the maildir where the server has made it. -/
def mailboxDir (maildir : Path) : Path := if isManaged maildir then maildir.dropLast else maildir

/-- No maildir lies in the mailbox directory of another. -/
def MaildirsApart (routes : List (Address × Path)) : Prop :=
  ∀ a b p q, Table.get routes a = some p → Table.get routes b = some q → p ≠ q →
    ¬ mailboxDir p <+: q

/-- Protected routes keep their entries and everything in their maildirs. -/
def Kept (s t : State) : Prop :=
  ∀ b q, Table.get s.routes b = some q → isProtected q →
    Table.get t.routes b = some q ∧ ∀ f, q <+: f → Table.get t.files f = Table.get s.files f

theorem Kept.refl (s : State) : Kept s s := fun _ _ hb _ => ⟨hb, fun _ _ => rfl⟩

theorem Kept.trans (h : Kept s t) (h' : Kept t u) : Kept s u := by
  intro b q hb hq
  obtain ⟨hroute, hfiles⟩ := h b q hb hq
  obtain ⟨hroute', hfiles'⟩ := h' b q hroute hq
  exact ⟨hroute', fun f hf => (hfiles' f hf).trans (hfiles f hf)⟩

theorem mailboxDir_isPrefix (maildir : Path) : mailboxDir maildir <+: maildir := by
  unfold mailboxDir
  split
  · exact List.dropLast_prefix maildir
  · exact List.prefix_rfl

/-- What is below one maildir is not in the mailbox directory of another that the server has
made. -/
theorem not_below {p q f : Path} (hp : isManaged p) (hpq : ¬ mailboxDir p <+: q)
    (hqp : ¬ mailboxDir q <+: p) (hf : q <+: f) : ¬ p.dropLast <+: f.dropLast := by
  intro h
  have hpf : p.dropLast <+: f := h.trans (List.dropLast_prefix f)
  rw [mailboxDir, if_pos hp] at hpq
  rcases List.prefix_or_prefix_of_prefix hpf hf with hle | hle
  · exact hpq hle
  · exact hqp ((mailboxDir_isPrefix q).trans (hle.trans (List.dropLast_prefix p)))

theorem isIn_below {p f : Path} {subs : List Bytes} (h : isIn p subs f) :
    p.dropLast <+: f.dropLast := by
  simp only [isIn, List.any_eq_true, decide_eq_true_eq] at h
  obtain ⟨sub, -, hf⟩ := h
  rw [hf]
  exact (List.dropLast_prefix p).trans (List.prefix_append p [sub])

/-- The cleaning removes only what is in the mailbox directory. -/
theorem get_cleanMaildir (how : Cleaning) (files : List (Path × Bytes)) {p f : Path} (r : Report)
    (addr : Address) (h : ¬ p.dropLast <+: f.dropLast) :
    Table.get (cleanMaildir how files p r addr).1 f = Table.get files f := by
  have hin : isIn p [ascii "new", ascii "cur", ascii "tmp"] f = false :=
    Bool.eq_false_iff.2 fun hin => h (isIn_below hin)
  have hcleared : Table.get (files.filter fun x =>
      how.stays x.1 || !isIn p [ascii "new", ascii "cur", ascii "tmp"] x.1) f =
        Table.get files f := by
    rw [Table.get_filter files
      (fun x => how.stays x || !isIn p [ascii "new", ascii "cur", ascii "tmp"] x) f, hin,
      Bool.not_false, Bool.or_true, if_pos rfl]
  unfold cleanMaildir
  cases how.raised with
  | some e => exact hcleared
  | none =>
    dsimp only
    split
    · rw [Table.get_filter _ (fun x => how.stays x || !decide (p.dropLast <+: x.dropLast)) f,
        decide_eq_false h, Bool.not_false, Bool.or_true, if_pos rfl, hcleared]
    · exact hcleared

theorem of_verdict_deleted {routes : List (Address × Path)} {a : Address} {p : Path}
    (h : verdict c routes raw = .deleted a p) :
    Table.get routes a = some p ∧ ¬ isProtected p := by
  unfold verdict at h
  dsimp only at h
  split at h
  · cases h
  · rename_i maildir hget
    split_ifs at h with hempty hprotected
    cases h
    exact ⟨hget, hprotected⟩

theorem deleteOne_kept (hapart : MaildirsApart d.1.routes) (raw : Address) :
    Kept d.1 (deleteOne c withMaildir how d raw).1 := by
  unfold deleteOne
  cases hv : verdict c d.1.routes raw with
  | notFound raw => exact Kept.refl d.1
  | protectedRoute addr maildir => exact Kept.refl d.1
  | deleted a p =>
    obtain ⟨hget, hnot⟩ := of_verdict_deleted hv
    intro b q hb hq
    have hmanaged : isManaged p := by
      by_contra hmanaged
      exact hnot (by simp [isProtected, hmanaged])
    have hpq : p ≠ q := by
      rintro rfl
      exact hnot hq
    have hab : a ≠ b := by
      rintro rfl
      exact hpq (Option.some.inj (hget.symm.trans hb))
    have hroute : Table.get (Table.del d.1.routes a) b = some q := by
      rwa [Table.get_del_of_ne hab]
    cases withMaildir with
    | false => exact ⟨hroute, fun _ _ => rfl⟩
    | true =>
      refine ⟨hroute, fun f hf => get_cleanMaildir (how a) d.1.files _ a ?_⟩
      exact not_below hmanaged (hapart a b p q hget hb hpq) (hapart b a q p hb hget hpq.symm) hf

theorem MaildirsApart.apply {routes : List (Address × Path)} (h : MaildirsApart routes)
    (v : Verdict) : MaildirsApart (v.apply routes) := fun a b p q ha hb =>
  h a b p q (get_of_get_apply ha) (get_of_get_apply hb)

theorem kept_fold (addrs : List Address) (d : State × Report) (hapart : MaildirsApart d.1.routes) :
    Kept d.1 (addrs.foldl (deleteOne c withMaildir how) d).1 := by
  induction addrs generalizing d with
  | nil => exact Kept.refl d.1
  | cons raw addrs ih =>
    refine (deleteOne_kept hapart raw).trans (ih _ ?_)
    rw [(deleteOne_spec d raw).1]
    exact hapart.apply _

/-! ## Requests -/

/-- Without trouble on the disk this is the deletion of the server's model. -/
theorem deleteOne_state (d : State × Report) (raw : Address) :
    (deleteOne c withMaildir (fun _ => ⟨fun _ => false, none⟩) d raw).1 =
      deleteRoute c withMaildir d.1 raw := by
  unfold deleteOne verdict deleteRoute
  dsimp only
  cases hget : Table.get d.1.routes (c.py.norm raw) with
  | none => rfl
  | some maildir =>
    by_cases hempty : c.py.norm raw = []
    · simp [hempty]
    by_cases hprotected : isProtected maildir
    · simp [hempty, hprotected]
    · cases withMaildir with
      | false => simp [hempty, hprotected]
      | true => simp [hempty, hprotected, cleanMaildir, clearMaildir, rmtree, apply_ite Prod.fst]

theorem foldl_state (addrs : List Address) (d : State × Report) :
    (addrs.foldl (deleteOne c withMaildir fun _ => ⟨fun _ => false, none⟩) d).1 =
      Fatmama.deleteRoutes c withMaildir d.1 addrs := by
  induction addrs generalizing d with
  | nil => rfl
  | cons raw addrs ih =>
    rw [List.foldl_cons, ih, deleteOne_state]
    rfl

/-- The result of a request is the one of the loop. -/
theorem perform_spec (c : Config) (how : Address → Cleaning) (persistError : Option String)
    (s : State) (q : Request) :
    ∃ d, d = (q.addrs s).foldl (deleteOne c q.withMaildir how) (s, ⟨[], [], [], [], 0, 0, 0⟩) ∧
      (perform c how persistError s q).2 = d.1 ∧
      (∀ e, (perform c how persistError s q).1 = .error e → persistError = some e) ∧
      ∀ r, (perform c how persistError s q).1 = .ok r →
        r.deleted = d.2.deleted ∧ r.notFound = d.2.notFound ∧
          r.protectedRoutes = d.2.protectedRoutes := by
  refine ⟨_, rfl, ?_⟩
  unfold perform deleteRoutes
  dsimp only
  cases persistError with
  | none =>
    refine ⟨rfl, nofun, fun r hr => ?_⟩
    obtain rfl := Except.ok.inj hr
    exact ⟨rfl, rfl, rfl⟩
  | some e =>
    dsimp only
    split
    · exact ⟨rfl, fun e' he => congrArg some (Except.error.inj he), nofun⟩
    · refine ⟨rfl, nofun, fun r hr => ?_⟩
      obtain rfl := Except.ok.inj hr
      exact ⟨rfl, rfl, rfl⟩

theorem perform_state (s : State) (q : Request) :
    (perform c (fun _ => ⟨fun _ => false, none⟩) none s q).2 =
      Fatmama.deleteRoutes c q.withMaildir s (q.addrs s) := by
  obtain ⟨d, rfl, hstate, -, -⟩ := perform_spec c (fun _ => ⟨fun _ => false, none⟩) none s q
  rw [hstate, foldl_state]

/-- The reclamation of an account is a request of one item, or of none. -/
theorem perform_reclaim (s : State) (mailbox : Address) :
    (perform c (fun _ => ⟨fun _ => false, none⟩) none s (.reclaim mailbox)).2 =
      reclaim c s mailbox := by
  rw [perform_state, reclaim, Request.addrs]
  cases Table.get s.routes mailbox with
  | none => rfl
  | some maildir =>
    dsimp only
    split <;> rfl

/-- Whatever the disk does: protected routes keep their entries and their files, every item gets one
verdict, which puts it into one list of the report, and the table loses what is reported deleted.
There is a report unless the table cannot be written to its file. -/
theorem deletion_respects_protection (c : Config) (how : Address → Cleaning)
    (persistError : Option String) (s : State) (q : Request) (hapart : MaildirsApart s.routes) :
    (∀ b p, Table.get s.routes b = some p →
      (¬ isManaged p ∨ ∃ name ∈ p, ascii "axiom-first-penguin-" <:+: name) →
      Table.get (perform c how persistError s q).2.routes b = some p ∧
      ∀ f, p <+: f → Table.get (perform c how persistError s q).2.files f = Table.get s.files f) ∧
    (∀ e, (perform c how persistError s q).1 = .error e → persistError = some e) ∧
    ∃ vs : List Verdict,
      List.Forall₂ (Verdict.About c s.routes (perform c how persistError s q).2.routes) vs
        (q.addrs s) ∧
      (perform c how persistError s q).2.routes =
        s.routes.filter (fun e => e.1 ∉ (vs.filterMap Verdict.toDeleted).map Prod.fst) ∧
      ∀ r, (perform c how persistError s q).1 = .ok r →
        r.deleted = vs.filterMap Verdict.toDeleted ∧
        r.notFound = vs.filterMap Verdict.toNotFound ∧
        r.protectedRoutes = vs.filterMap Verdict.toProtected := by
  obtain ⟨d, hd, hstate, herror, hreport⟩ := perform_spec c how persistError s q
  obtain ⟨hroutes, hdeleted, hnotFound, hprotected⟩ := @fold_spec c q.withMaildir how (q.addrs s)
    (s, ⟨[], [], [], [], 0, 0, 0⟩)
  rw [← hd] at hroutes hdeleted hnotFound hprotected
  rw [hstate]
  refine ⟨fun b p hb hp => ?_, herror, verdicts c s.routes (q.addrs s), ?_, hroutes,
    fun r hr => ?_⟩
  · have hkept := @kept_fold c q.withMaildir how (q.addrs s) (s, ⟨[], [], [], [], 0, 0, 0⟩) hapart
    rw [← hd] at hkept
    refine hkept b p hb ?_
    rcases hp with hp | ⟨name, hname, hin⟩
    · simp [isProtected, hp]
    · simp only [isProtected, Bool.or_eq_true, List.any_eq_true, decide_eq_true_eq]
      exact Or.inl ⟨name, hname, hin⟩
  · rw [hroutes]
    exact verdicts_about (q.addrs s) fun _ _ h => h
  · obtain ⟨hd', hn', hp'⟩ := hreport r hr
    exact ⟨hd'.trans hdeleted, hn'.trans hnotFound, hp'.trans hprotected⟩

/-- A managed mailbox and the maildir of a validator. -/
def sampleState : State where
  routes :=
    [(ascii "a@axiom", [ascii "env", ascii "fatmama-mailbox-a", ascii "inbox"]),
      (ascii "v@axiom", [ascii "env", ascii "maildir", ascii "inbox"])]
  files :=
    [([ascii "env", ascii "fatmama-mailbox-a", ascii "inbox", ascii "new", ascii "1"], [1]),
      ([ascii "env", ascii "maildir", ascii "inbox", ascii "new", ascii "1"], [2])]
  sessions := []

theorem maildirsApart_of_mem {routes : List (Address × Path)}
    (h : ∀ x ∈ routes, ∀ y ∈ routes, x.2 ≠ y.2 → ¬ mailboxDir x.2 <+: y.2) :
    MaildirsApart routes := fun a b p q ha hb hpq =>
  h (a, p) (Table.mem_of_get ha) (b, q) (Table.mem_of_get hb) hpq

/-- An address twice, one that is unknown, and the validator. -/
theorem deletion_respects_protection_sample :
    (perform ⟨asciiStr, [ascii "env"], [ascii "axiom"]⟩ (fun _ => ⟨fun _ => false, none⟩) none
      sampleState
      (.delete [ascii " A@axiom", ascii "a@axiom", ascii "b", ascii "v@axiom"] true)).1 =
      .ok ⟨[(ascii "a@axiom", [ascii "env", ascii "fatmama-mailbox-a", ascii "inbox"])],
        [ascii "a@axiom", ascii "b"],
        [(ascii "v@axiom", [ascii "env", ascii "maildir", ascii "inbox"], protectedReason)],
        [], 1, 1, 1⟩ ∧
    Table.get (perform ⟨asciiStr, [ascii "env"], [ascii "axiom"]⟩
      (fun _ => ⟨fun _ => false, none⟩) none sampleState
      (.delete [ascii " A@axiom", ascii "a@axiom", ascii "b", ascii "v@axiom"] true)).2.routes
      (ascii "v@axiom") = some [ascii "env", ascii "maildir", ascii "inbox"] := by
  refine ⟨by decide +kernel, ?_⟩
  exact ((deletion_respects_protection ⟨asciiStr, [ascii "env"], [ascii "axiom"]⟩
    (fun _ => ⟨fun _ => false, none⟩) none sampleState
    (.delete [ascii " A@axiom", ascii "a@axiom", ascii "b", ascii "v@axiom"] true)
    (maildirsApart_of_mem (by decide))).1 (ascii "v@axiom")
    [ascii "env", ascii "maildir", ascii "inbox"] (by decide) (Or.inl (by decide))).1

end Fatmama.Deletion
