import AxiomCarriers.Fatmama.Routes
import Mathlib.Tactic

/-!
# Isolation of the mailboxes

No two addresses share a maildir, and no operation on an address reads or removes mail of another,
as long as a new address gets a maildir that nobody else uses, the directory of a removed maildir
has no other in it, and no session changes its mailbox while messages are marked
(`mailboxes_isolated`).  Two addresses with one slug break it (`mailboxes_shared_by_slug`).
-/

namespace Fatmama

open Bytes Runs

/-- No two addresses share a maildir. -/
def Distinct (s : State) : Prop :=
  ∀ a b p, Table.get s.routes a = some p → Table.get s.routes b = some p → a = b

/-- No two addresses share a maildir, no session can read or remove mail of an address but its own,
and every mark of a session was made for the mailbox that it has open. -/
structure Isolated (s : State) : Prop where
  distinct : Distinct s
  reads : ∀ k x, Table.get s.sessions k = some x → ∀ f ∈ x.snapshot, Table.get s.files f ≠ none →
    ∀ b q, Table.get s.routes b = some q → isMail q f → b = x.mailbox
  marks : ∀ k x, Table.get s.sessions k = some x → ∀ n ∈ x.deleted, n.2 = x.mailbox

/-- The addresses that an operation is for. -/
def subjects (c : Config) (s : State) : Event → List Address
  | .register arg => [c.py.norm (registerAddress c arg)]
  | .autoCreate rcptTo => [c.py.norm rcptTo]
  | .deliver rcptTo _ _ => [rcptTo]
  | .delete addrs _ => addrs.map c.py.norm
  | .wipe _ => (Table.keys s.routes).map c.py.norm
  | .quit session => (Table.get s.sessions session).toList.map (·.mailbox)
  | .user _ _ | .dele _ _ | .rset _ | .drop _ => []

/-- An address keeps its route and its mail. -/
def Untouched (s t : State) (b : Address) : Prop :=
  Table.get t.routes b = Table.get s.routes b ∧
    ∀ q, Table.get s.routes b = some q → ∀ f, isMail q f →
      Table.get t.files f = Table.get s.files f

/-- The address has a maildir already, or one that it shares with nobody: no other address is routed
to it, and no session of another address has found a message that is in it. -/
def FreshApart (c : Config) (s : State) (addr : Address) : Prop :=
  Table.get s.routes addr = none → isRegistrable c addr →
    (∀ b ∈ Table.keys s.routes, Table.get s.routes b ≠ some (freshMaildir c addr)) ∧
    ∀ k ∈ Table.keys s.sessions, ∀ x ∈ Table.get s.sessions k, x.mailbox ≠ addr →
      ∀ f ∈ x.snapshot, Table.get s.files f ≠ none → ¬ isMail (freshMaildir c addr) f

/-- Nothing of another address lies in the directory that the removal of a maildir removes. -/
def RemovedApart (s : State) (addrs : List Address) (maildir : Path) : Prop :=
  ¬ isProtected maildir →
    ∀ b ∈ Table.keys s.routes, b ∉ addrs → ∀ q ∈ Table.get s.routes b, ¬ maildir.dropLast <+: q

/-- Every removal of a maildir that the deletion of the addresses comes to is apart. -/
def DeletedApart (s : State) (addrs : List Address) : Prop :=
  ∀ a ∈ addrs, ∀ p ∈ Table.get s.routes a, RemovedApart s addrs p

/-- An operation gives no address a maildir of another, removes no directory that has one of another
in it, and opens no other mailbox in a session that has marked messages. -/
def Apart (c : Config) (s : State) : Event → Prop
  | .register arg => FreshApart c s (c.py.norm (registerAddress c arg))
  | .autoCreate rcptTo => FreshApart c s (c.py.norm rcptTo)
  | .delete addrs withMaildir => withMaildir → DeletedApart s (addrs.map c.py.norm)
  | .wipe withMaildirs => withMaildirs → DeletedApart s ((Table.keys s.routes).map c.py.norm)
  | .user session arg => ∀ x ∈ Table.get s.sessions session,
      x.deleted = [] ∨ x.mailbox = c.py.lower arg
  | .quit session => ∀ x ∈ Table.get s.sessions session, ∀ p ∈ Table.get s.routes x.mailbox,
      x.deleted ≠ [] → isReclaimable (unlinkDeleted s x) p → RemovedApart s [x.mailbox] p
  | .deliver _ _ _ | .dele _ _ | .rset _ | .drop _ => True

instance (c : Config) (s : State) (addr : Address) : Decidable (FreshApart c s addr) := by
  unfold FreshApart
  infer_instance

instance (s : State) (addrs : List Address) (maildir : Path) :
    Decidable (RemovedApart s addrs maildir) := by
  unfold RemovedApart
  infer_instance

instance (s : State) (addrs : List Address) : Decidable (DeletedApart s addrs) := by
  unfold DeletedApart
  infer_instance

instance (c : Config) (s : State) (e : Event) : Decidable (Apart c s e) := by
  unfold Apart
  split <;> infer_instance

/-! ## Removals -/

/-- An operation that only removes. -/
structure Shrinks (s t : State) : Prop where
  routes : ∀ a p, Table.get t.routes a = some p → Table.get s.routes a = some p
  files : ∀ f, Table.get t.files f ≠ none → Table.get s.files f ≠ none
  sessions : ∀ k x, Table.get t.sessions k = some x → Table.get s.sessions k = some x

theorem Shrinks.refl (s : State) : Shrinks s s := ⟨fun _ _ h => h, fun _ h => h, fun _ _ h => h⟩

theorem Shrinks.trans {s t u : State} (h : Shrinks s t) (h' : Shrinks t u) : Shrinks s u :=
  ⟨fun a p hp => h.routes a p (h'.routes a p hp), fun f hf => h.files f (h'.files f hf),
    fun k x hx => h.sessions k x (h'.sessions k x hx)⟩

theorem Isolated.shrink {s t : State} (h : Isolated s) (hst : Shrinks s t) : Isolated t where
  distinct a b p ha hb := h.distinct a b p (hst.routes a p ha) (hst.routes b p hb)
  reads k x hx f hf he b q hq hm :=
    h.reads k x (hst.sessions k x hx) f hf (hst.files f he) b q (hst.routes b q hq) hm
  marks k x hx := h.marks k x (hst.sessions k x hx)

/-- The mailboxes of the sessions are named in lower case. -/
def Named (c : Config) (s : State) : Prop :=
  ∀ k x, Table.get s.sessions k = some x → c.py.norm x.mailbox = x.mailbox

theorem get_clearMaildir (files : List (Path × Bytes)) (maildir f : Path) :
    Table.get (clearMaildir files maildir) f =
      if isIn maildir [ascii "new", ascii "cur", ascii "tmp"] f then none
      else Table.get files f := by
  rw [clearMaildir, Table.get_filter files
    (fun p => !isIn maildir [ascii "new", ascii "cur", ascii "tmp"] p) f]
  cases isIn maildir [ascii "new", ascii "cur", ascii "tmp"] f <;> simp

theorem get_rmtree (files : List (Path × Bytes)) (dir f : Path) :
    Table.get (rmtree files dir) f = if dir <+: f.dropLast then none else Table.get files f := by
  rw [rmtree, Table.get_filter files (fun p => !decide (dir <+: p.dropLast)) f]
  by_cases h : dir <+: f.dropLast <;> simp [h]

/-- What the deletion of one address can do. -/
theorem deleteRoute_cases (c : Config) (withMaildir : Bool) (s : State) (raw : Address) :
    deleteRoute c withMaildir s raw = s ∨
    ∃ p, Table.get s.routes (c.py.norm raw) = some p ∧ ¬ isProtected p ∧ isManaged p ∧
      deleteRoute c withMaildir s raw = { s with
        routes := Table.del s.routes (c.py.norm raw)
        files := if withMaildir then rmtree (clearMaildir s.files p) p.dropLast else s.files } := by
  cases hp : Table.get s.routes (c.py.norm raw) with
  | none => simp [deleteRoute, hp]
  | some p =>
    by_cases hpr : c.py.norm raw = [] ∨ isProtected p
    · simp [deleteRoute, hp, hpr]
    · have hm : isManaged p := by
        have := (not_or.1 hpr).2
        simp only [isProtected, Bool.or_eq_true, Bool.not_eq_true', not_or] at this
        simpa using this.2
      exact Or.inr ⟨p, rfl, (not_or.1 hpr).2, hm, by simp [deleteRoute, hp, hpr, hm]⟩

theorem deleteRoute_shrinks (c : Config) (withMaildir : Bool) (s : State) (raw : Address) :
    Shrinks s (deleteRoute c withMaildir s raw) := by
  rcases deleteRoute_cases c withMaildir s raw with h | ⟨p, -, -, -, h⟩
  · rw [h]
    exact Shrinks.refl s
  · rw [h]
    refine ⟨fun a q hq => (Table.get_of_get_del hq).2, fun f hf => ?_, fun k x hx => hx⟩
    cases withMaildir with
    | false => exact hf
    | true =>
      intro hn
      simp [get_rmtree, get_clearMaildir, hn] at hf

theorem deleteRoutes_shrinks (c : Config) (withMaildir : Bool) (s : State)
    (addrs : List Address) : Shrinks s (deleteRoutes c withMaildir s addrs) := by
  induction addrs generalizing s with
  | nil => exact Shrinks.refl s
  | cons a addrs ih => exact (deleteRoute_shrinks c withMaildir s a).trans (ih _)

theorem Untouched.refl (s : State) (b : Address) : Untouched s s b :=
  ⟨rfl, fun _ _ _ _ => rfl⟩

theorem Untouched.trans {s t u : State} {b : Address} (h : Untouched s t b)
    (h' : Untouched t u b) : Untouched s u b :=
  ⟨h'.1.trans h.1, fun q hq f hf =>
    (h'.2 q (h.1.trans hq) f hf).trans (h.2 q hq f hf)⟩

/-- The deletion of one address leaves another one alone when nothing of it lies in the directory
that is removed. -/
theorem deleteRoute_untouched {c : Config} {withMaildir : Bool} {s : State} {raw b : Address}
    (hd : Distinct s) (hb : b ≠ c.py.norm raw)
    (hC : withMaildir → ∀ p, Table.get s.routes (c.py.norm raw) = some p → ¬ isProtected p →
      ∀ q, Table.get s.routes b = some q → ¬ p.dropLast <+: q) :
    Untouched s (deleteRoute c withMaildir s raw) b := by
  rcases deleteRoute_cases c withMaildir s raw with h | ⟨p, hp, hpr, hm, h⟩
  · rw [h]
    exact Untouched.refl s b
  · rw [h]
    refine ⟨Table.get_del_of_ne hb.symm s.routes, fun q hq f hf => ?_⟩
    cases withMaildir with
    | false => rfl
    | true =>
      have hout : ¬ p.dropLast <+: f.dropLast := fun hpre =>
        hC rfl p hp hpr q hq (prefix_of_isMail hm hf hpre)
      have hin : ¬ isIn p [ascii "new", ascii "cur", ascii "tmp"] f := fun hin =>
        hb (hd b _ q hq (isIn_unique hin (isIn_of_isMail hf) ▸ hp))
      simp [get_rmtree, get_clearMaildir, hout, hin]

theorem deleteRoutes_untouched {c : Config} {withMaildir : Bool} {s : State} {addrs : List Address}
    {b : Address} (hd : Distinct s) (hb : b ∉ addrs.map c.py.norm)
    (hC : withMaildir → ∀ a ∈ addrs, ∀ p, Table.get s.routes (c.py.norm a) = some p →
      ¬ isProtected p → ∀ q, Table.get s.routes b = some q → ¬ p.dropLast <+: q) :
    Untouched s (deleteRoutes c withMaildir s addrs) b := by
  induction addrs generalizing s with
  | nil => exact Untouched.refl s b
  | cons a addrs ih =>
    rw [List.map_cons, List.mem_cons, not_or] at hb
    have hs := deleteRoute_shrinks c withMaildir s a
    refine (deleteRoute_untouched hd hb.1 fun hw => hC hw a List.mem_cons_self).trans
      (ih (fun a b p ha hb => hd a b p (hs.routes a p ha) (hs.routes b p hb)) hb.2
        fun hw a' ha' p hp hpr q hq => ?_)
    exact hC hw a' (List.mem_cons_of_mem _ ha') p (hs.routes _ p hp) hpr q (hs.routes b q hq)

/-! ## Registration -/

theorem Isolated.registerRoute {c : Config} {s s' : State} {email : Address} (hi : Isolated s)
    (hC : FreshApart c s (c.py.norm email)) (h : registerRoute c s email = some s') :
    Isolated s' := by
  rcases registerRoute_cases h with rfl | ⟨hnone, hreg, rfl⟩
  · exact hi
  · obtain ⟨hroutes, hsessions⟩ := hC hnone hreg
    have hfree : ∀ b, Table.get s.routes b ≠ some (freshMaildir c (c.py.norm email)) :=
      fun b hb => hroutes b (Table.mem_keys_of_get hb) hb
    refine ⟨fun a b p ha hb => ?_, fun k x hx f hf he b q hq hm => ?_, hi.marks⟩
    · rcases Table.get_of_get_put ha with ⟨hae, rfl⟩ | ⟨-, ha⟩
      · rcases Table.get_of_get_put hb with ⟨hbe, -⟩ | ⟨-, hb⟩
        · exact hae.symm.trans hbe
        · exact absurd hb (hfree b)
      · rcases Table.get_of_get_put hb with ⟨-, rfl⟩ | ⟨-, hb⟩
        · exact absurd ha (hfree a)
        · exact hi.distinct a b p ha hb
    · rcases Table.get_of_get_put hq with ⟨hbe, rfl⟩ | ⟨-, hq⟩
      · by_contra hne
        exact hsessions k (Table.mem_keys_of_get hx) x hx (hbe ▸ Ne.symm hne) f hf he hm
      · exact hi.reads k x hx f hf he b q hq hm

theorem registerRoute_untouched {c : Config} {s s' : State} {email b : Address}
    (hb : b ≠ c.py.norm email) (h : registerRoute c s email = some s') : Untouched s s' b := by
  rcases registerRoute_cases h with rfl | ⟨-, -, rfl⟩
  · exact Untouched.refl s' b
  · exact ⟨Table.get_put_of_ne hb.symm _ _, fun _ _ _ _ => rfl⟩

theorem registerRoute_sessions {c : Config} {s s' : State} {email : Address}
    (h : registerRoute c s email = some s') : s'.sessions = s.sessions := by
  rcases registerRoute_cases h with rfl | ⟨-, -, rfl⟩ <;> rfl

theorem markRegistered_shrinks (c : Config) (s : State) (addr : Address) :
    Shrinks s (markRegistered c s addr) := by
  unfold markRegistered
  split
  · refine ⟨fun _ _ h => h, fun f hf => ?_, fun _ _ h => h⟩
    obtain ⟨d, hd⟩ := Option.ne_none_iff_exists'.1 hf
    rw [(Table.get_of_get_del hd).2]
    exact Option.some_ne_none d
  · exact Shrinks.refl s

theorem markRegistered_untouched (c : Config) (s : State) (addr b : Address) :
    Untouched s (markRegistered c s addr) b := by
  refine ⟨by rw [markRegistered_routes], fun q _ f hf => sameMail_markRegistered c s addr q f hf⟩

theorem markAuto_untouched (c : Config) (s : State) (addr b : Address) :
    Untouched s (markAuto c s addr) b := by
  refine ⟨by rw [markAuto_routes], fun q _ f hf => sameMail_markAuto c s addr q f hf⟩

theorem Isolated.markAuto {s : State} (hi : Isolated s) (c : Config) (addr : Address) :
    Isolated (markAuto c s addr) := by
  refine ⟨fun a b p ha hb => ?_, fun k x hx f hf he b q hq hm => ?_, fun k x hx => ?_⟩
  · rw [markAuto_routes] at ha hb
    exact hi.distinct a b p ha hb
  · rw [markAuto_sessions] at hx
    rw [markAuto_routes] at hq
    rw [sameMail_markAuto c s addr q f hm] at he
    exact hi.reads k x hx f hf he b q hq hm
  · rw [markAuto_sessions] at hx
    exact hi.marks k x hx

/-! ## POP3 -/

theorem Session.message_mem {x : Session} {n : ℕ} {f : Path} (h : x.message n = some f) :
    f ∈ x.snapshot := by
  unfold Session.message at h
  split_ifs at h
  exact List.mem_of_getElem? h

theorem mem_snapshot {s : State} {mailbox : Address} {f : Path} (h : f ∈ snapshot s mailbox) :
    ∃ p, Table.get s.routes mailbox = some p ∧ isIn p [ascii "new"] f := by
  unfold snapshot at h
  split at h
  next p hp => exact ⟨p, hp, (List.mem_filter.1 h).2⟩
  next => simp at h

theorem unlinkDeleted_shrinks (s : State) (x : Session) : Shrinks s (unlinkDeleted s x) := by
  refine ⟨fun _ _ h => h, fun f hf hn => ?_, fun _ _ h => h⟩
  rw [unlinkDeleted, Table.get_foldl_del, hn, ite_self] at hf
  exact hf rfl

/-- QUIT unlinks no mail of another address: the messages of the session that still exist are its
own. -/
theorem unlinkDeleted_untouched {s : State} (hi : Isolated s) {k : ℕ} {x : Session}
    (hx : Table.get s.sessions k = some x) {b : Address} (hb : b ≠ x.mailbox) :
    Untouched s (unlinkDeleted s x) b := by
  refine ⟨rfl, fun q hq f hf => ?_⟩
  rw [unlinkDeleted, Table.get_foldl_del]
  split_ifs with hmem
  · obtain ⟨n, -, hn⟩ := List.mem_filterMap.1 hmem
    by_contra hne
    exact hb (hi.reads k x hx f (Session.message_mem hn) (Ne.symm hne) b q hq hf)
  · rfl

theorem reclaim_shrinks (c : Config) (s : State) (mailbox : Address) :
    Shrinks s (reclaim c s mailbox) := by
  unfold reclaim
  split
  · split_ifs
    · exact deleteRoutes_shrinks c true s [mailbox]
    · exact Shrinks.refl s
  · exact Shrinks.refl s

theorem quit_shrinks (c : Config) (s : State) (x : Session) : Shrinks s (quit c s x) := by
  unfold quit
  split_ifs
  · exact unlinkDeleted_shrinks s x
  · exact (unlinkDeleted_shrinks s x).trans (reclaim_shrinks c _ x.mailbox)

theorem quit_untouched {c : Config} {s : State} (hi : Isolated s) {k : ℕ} {x : Session}
    (hx : Table.get s.sessions k = some x) (hn : c.py.norm x.mailbox = x.mailbox)
    (hC : ∀ p ∈ Table.get s.routes x.mailbox, x.deleted ≠ [] →
      isReclaimable (unlinkDeleted s x) p → RemovedApart s [x.mailbox] p) {b : Address}
    (hb : b ≠ x.mailbox) : Untouched s (quit c s x) b := by
  have hu := unlinkDeleted_untouched hi hx hb
  unfold quit
  split_ifs with hd
  · exact hu
  · apply hu.trans
    have hd' : Distinct (unlinkDeleted s x) := hi.distinct
    unfold reclaim
    split
    next p hp =>
      split_ifs with hr
      · refine deleteRoutes_untouched hd' (by simpa [hn] using hb) fun _ a ha p' hp' hpr q hq => ?_
        obtain rfl := List.mem_singleton.1 ha
        rw [hn, hp] at hp'
        obtain rfl := Option.some.inj hp'
        exact hC p hp hd hr hpr b (Table.mem_keys_of_get hq) (by simpa using hb) q hq
      · exact Untouched.refl _ b
    next => exact Untouched.refl _ b

/-- A command of a session keeps isolation when the session afterwards is isolated. -/
theorem Isolated.setSession {s : State} (hi : Isolated s) {k : ℕ} {x : Session}
    (hreads : ∀ f ∈ x.snapshot, Table.get s.files f ≠ none → ∀ b q,
      Table.get s.routes b = some q → isMail q f → b = x.mailbox)
    (hmarks : ∀ n ∈ x.deleted, n.2 = x.mailbox) : Isolated (s.setSession k x) := by
  refine ⟨hi.distinct, fun k' x' hx' => ?_, fun k' x' hx' => ?_⟩
  · rcases Table.get_of_get_put hx' with ⟨-, rfl⟩ | ⟨-, hx'⟩
    · exact hreads
    · exact hi.reads k' x' hx'
  · rcases Table.get_of_get_put hx' with ⟨-, rfl⟩ | ⟨-, hx'⟩
    · exact hmarks
    · exact hi.marks k' x' hx'

theorem Named.setSession {c : Config} {s : State} (hn : Named c s) {k : ℕ} {x : Session}
    (hx : c.py.norm x.mailbox = x.mailbox) : Named c (s.setSession k x) := by
  intro k' x' hx'
  rcases Table.get_of_get_put hx' with ⟨-, rfl⟩ | ⟨-, hx'⟩
  · exact hx
  · exact hn k' x' hx'

theorem Named.shrink {c : Config} {s t : State} (hn : Named c s) (h : Shrinks s t) : Named c t :=
  fun k x hx => hn k x (h.sessions k x hx)

theorem Named.of_sessions {c : Config} {s t : State} (hn : Named c s)
    (h : t.sessions = s.sessions) : Named c t := fun k x hx => hn k x (h ▸ hx)

/-! ## Steps and runs -/

theorem step_register {c : Config} {s t : State} {arg : Bytes}
    (h : step c s (.register arg) = some t) :
    t = s ∨ ∃ s', registerRoute c s (registerAddress c arg) = some s' ∧
      t = markRegistered c s' (registerAddress c arg) := by
  obtain rfl := Option.some.inj h
  simp only [register]
  split_ifs
  · exact Or.inl rfl
  · split
    next s' hr => exact Or.inr ⟨s', hr, rfl⟩
    next => exact Or.inl rfl
  · exact Or.inl rfl

theorem step_autoCreate {c : Config} {s t : State} {rcptTo : Address}
    (h : step c s (.autoCreate rcptTo) = some t) :
    t = s ∨ ∃ s', registerRoute c s rcptTo = some s' ∧ t = markAuto c s' rcptTo := by
  simp only [step] at h
  split_ifs at h
  obtain rfl := Option.some.inj h
  simp only [autoCreate]
  cases registerRoute c s rcptTo with
  | none => exact Or.inl rfl
  | some s' => exact Or.inr ⟨s', rfl, rfl⟩

theorem step_deliver {c : Config} {s t : State} {rcptTo : Address} {name message : Bytes}
    (h : step c s (.deliver rcptTo name message) = some t) :
    ∃ p, Table.get s.routes rcptTo = some p ∧
      (∀ x ∈ s.sessions, p ++ [ascii "new", name] ∉ x.2.snapshot) ∧
      t = { s with files := Table.put s.files (p ++ [ascii "new", name]) message } := by
  cases hp : Table.get s.routes rcptTo with
  | none => simp [step, hp] at h
  | some p =>
    simp only [step, hp] at h
    split_ifs at h with hfree
    exact ⟨p, rfl, hfree.2, (Option.some.inj h).symm⟩

theorem step_dele {c : Config} {s t : State} {session n : ℕ}
    (h : step c s (.dele session n) = some t) :
    ∃ x, Table.get s.sessions session = some x ∧ (t = s ∨
      t = s.setSession session { x with deleted := x.deleted ++ [(n, x.mailbox)] }) := by
  cases hx : Table.get s.sessions session with
  | none => simp [step, hx] at h
  | some x =>
    refine ⟨x, rfl, ?_⟩
    simp only [step, hx] at h
    split_ifs at h
    · exact Or.inl (Option.some.inj h).symm
    · exact Or.inr (Option.some.inj h).symm

theorem step_rset {c : Config} {s t : State} {session : ℕ}
    (h : step c s (.rset session) = some t) :
    ∃ x, Table.get s.sessions session = some x ∧
      t = s.setSession session { x with deleted := [] } := by
  cases hx : Table.get s.sessions session with
  | none => simp [step, hx] at h
  | some x =>
    simp only [step, hx] at h
    exact ⟨x, rfl, (Option.some.inj h).symm⟩

theorem step_quit {c : Config} {s t : State} {session : ℕ}
    (h : step c s (.quit session) = some t) :
    ∃ x, Table.get s.sessions session = some x ∧
      t = { quit c s x with sessions := Table.del s.sessions session } := by
  cases hx : Table.get s.sessions session with
  | none => simp [step, hx] at h
  | some x =>
    simp only [step, hx] at h
    exact ⟨x, rfl, (Option.some.inj h).symm⟩

theorem isolated_step {c : Config} (s : State) (e : Event) (t : State)
    (hi : Isolated s ∧ Named c s) (hC : Apart c s e) (h : step c s e = some t) :
    Isolated t ∧ Named c t := by
  obtain ⟨hi, hn⟩ := hi
  cases e with
  | register arg =>
    rcases step_register h with rfl | ⟨s', hr, rfl⟩
    · exact ⟨hi, hn⟩
    · have hsh := markRegistered_shrinks c s' (registerAddress c arg)
      exact ⟨(hi.registerRoute hC hr).shrink hsh,
        (hn.of_sessions (registerRoute_sessions hr)).shrink hsh⟩
  | autoCreate rcptTo =>
    rcases step_autoCreate h with rfl | ⟨s', hr, rfl⟩
    · exact ⟨hi, hn⟩
    · exact ⟨(hi.registerRoute hC hr).markAuto c rcptTo,
        (hn.of_sessions (registerRoute_sessions hr)).of_sessions (markAuto_sessions c s' rcptTo)⟩
  | deliver rcptTo name message =>
    obtain ⟨p, -, hfree, rfl⟩ := step_deliver h
    refine ⟨⟨hi.distinct, fun k x hx f hf he b q hq hm => ?_, hi.marks⟩, hn⟩
    -- no session has found the message that comes in
    have hne : p ++ [ascii "new", name] ≠ f := fun hpf =>
      hfree (k, x) (Table.mem_of_get hx) (hpf ▸ hf)
    rw [Table.get_put_of_ne hne] at he
    exact hi.reads k x hx f hf he b q hq hm
  | delete addrs withMaildir =>
    obtain rfl := Option.some.inj h
    have hsh := deleteRoutes_shrinks c withMaildir s addrs
    exact ⟨hi.shrink hsh, hn.shrink hsh⟩
  | wipe withMaildirs =>
    obtain rfl := Option.some.inj h
    have hsh := deleteRoutes_shrinks c withMaildirs s (Table.keys s.routes)
    exact ⟨hi.shrink hsh, hn.shrink hsh⟩
  | user session arg =>
    simp only [step] at h
    split_ifs at h with harg
    obtain rfl := Option.some.inj h
    refine ⟨hi.setSession (fun f hf _ b q hq hm => ?_) fun n hmem => ?_,
      hn.setSession (c.py.lower_stripped arg harg)⟩
    · obtain ⟨p, hp, hin⟩ := mem_snapshot hf
      exact hi.distinct b _ q hq (isIn_unique hin (isIn_of_isMail hm) ▸ hp)
    · cases hx : Table.get s.sessions session with
      | none => simp [hx] at hmem
      | some x =>
        simp only [hx, Option.map_some, Option.getD_some] at hmem
        rw [hi.marks session x hx n hmem]
        exact (hC x hx).resolve_left (List.ne_nil_of_mem hmem)
  | dele session n =>
    obtain ⟨x, hx, rfl | rfl⟩ := step_dele h
    · exact ⟨hi, hn⟩
    · refine ⟨hi.setSession (hi.reads session x hx) fun m hm => ?_,
        hn.setSession (hn session x hx)⟩
      rcases List.mem_append.1 hm with hm | hm
      · exact hi.marks session x hx m hm
      · rw [List.mem_singleton.1 hm]
  | rset session =>
    obtain ⟨x, hx, rfl⟩ := step_rset h
    exact ⟨hi.setSession (hi.reads session x hx) (by simp), hn.setSession (hn session x hx)⟩
  | quit session =>
    obtain ⟨x, hx, rfl⟩ := step_quit h
    have hsh := quit_shrinks c s x
    have hsh' : Shrinks s { quit c s x with sessions := Table.del s.sessions session } :=
      ⟨hsh.routes, hsh.files, fun k x' hx' => (Table.get_of_get_del hx').2⟩
    exact ⟨hi.shrink hsh', hn.shrink hsh'⟩
  | drop session =>
    obtain rfl := Option.some.inj h
    have hsh : Shrinks s { s with sessions := Table.del s.sessions session } :=
      ⟨fun _ _ h => h, fun _ h => h, fun k x hx => (Table.get_of_get_del hx).2⟩
    exact ⟨hi.shrink hsh, hn.shrink hsh⟩

/-- An operation leaves every address alone that it is not for. -/
theorem step_untouched {c : Config} {s t : State} {e : Event} (hi : Isolated s) (hn : Named c s)
    (hC : Apart c s e) (h : step c s e = some t) {b : Address} (hb : b ∉ subjects c s e) :
    Untouched s t b := by
  cases e with
  | register arg =>
    rcases step_register h with rfl | ⟨s', hr, rfl⟩
    · exact Untouched.refl _ b
    · exact (registerRoute_untouched (List.ne_of_not_mem_cons hb) hr).trans
        (markRegistered_untouched c s' _ b)
  | autoCreate rcptTo =>
    rcases step_autoCreate h with rfl | ⟨s', hr, rfl⟩
    · exact Untouched.refl _ b
    · exact (registerRoute_untouched (List.ne_of_not_mem_cons hb) hr).trans
        (markAuto_untouched c s' rcptTo b)
  | deliver rcptTo name message =>
    obtain ⟨p, hp, -, rfl⟩ := step_deliver h
    refine ⟨rfl, fun q hq f hf => Table.get_put_of_ne (fun hpf => ?_) _ _⟩
    have hpq : p = q := isIn_unique (isIn_new p name) (hpf ▸ isIn_of_isMail hf)
    exact List.ne_of_not_mem_cons hb (hi.distinct b rcptTo q hq (hpq ▸ hp))
  | delete addrs withMaildir =>
    obtain rfl := Option.some.inj h
    exact deleteRoutes_untouched hi.distinct hb fun hw a ha p hp hpr q hq =>
      hC hw _ (List.mem_map_of_mem ha) p hp hpr b (Table.mem_keys_of_get hq) hb q hq
  | wipe withMaildirs =>
    obtain rfl := Option.some.inj h
    exact deleteRoutes_untouched hi.distinct hb fun hw a ha p hp hpr q hq =>
      hC hw _ (List.mem_map_of_mem ha) p hp hpr b (Table.mem_keys_of_get hq) hb q hq
  | user session arg =>
    simp only [step] at h
    split_ifs at h
    obtain rfl := Option.some.inj h
    exact ⟨rfl, fun _ _ _ _ => rfl⟩
  | dele session n =>
    obtain ⟨x, -, rfl | rfl⟩ := step_dele h
    · exact Untouched.refl _ b
    · exact ⟨rfl, fun _ _ _ _ => rfl⟩
  | rset session =>
    obtain ⟨x, -, rfl⟩ := step_rset h
    exact ⟨rfl, fun _ _ _ _ => rfl⟩
  | quit session =>
    obtain ⟨x, hx, rfl⟩ := step_quit h
    exact quit_untouched hi hx (hn session x hx) (hC x hx) (by simpa [subjects, hx] using hb)
  | drop session =>
    obtain rfl := Option.some.inj h
    exact Untouched.refl s b

/-- From a table of distinct maildirs, every run whose operations keep apart reaches a state whose
mailboxes are isolated, and from there an operation that keeps apart leaves the route and the mail
of every address alone that it is not for. -/
theorem mailboxes_isolated {c : Config} {s t : State} {es : List Event} (hs : Distinct s)
    (hsessions : s.sessions = []) (hC : Along (step c) (Apart c) s es)
    (h : run (step c) s es = some t) :
    Isolated t ∧ ∀ e u, Apart c t e → step c t e = some u →
      ∀ b, b ∉ subjects c t e → Untouched t u b := by
  have hnone : ∀ k, Table.get s.sessions k = none := fun k => by rw [hsessions, Table.get_nil]
  have hi : Isolated s :=
    ⟨hs, fun k x hx => by simp [hnone] at hx, fun k x hx => by simp [hnone] at hx⟩
  have hn : Named c s := fun k x hx => by simp [hnone] at hx
  obtain ⟨hi, hn⟩ := run_invariant isolated_step ⟨hi, hn⟩ hC h
  exact ⟨hi, fun e u hCe hu b hb => step_untouched hi hn hCe hu hb⟩

/-- A server for `@axiom` with no routes yet. -/
def axiomConfig : Config := ⟨asciiStr, [ascii "env"], [ascii "axiom"]⟩

/-- Two addresses are registered; one gets mail, its owner takes it, and the other is deleted. -/
theorem mailboxes_isolated_two :
    ∃ t, run (step axiomConfig) ⟨[], [], []⟩ [.register (ascii "<Alice@axiom>"),
      .autoCreate (ascii "bob@axiom"), .deliver (ascii "alice@axiom") (ascii "1") (ascii "hi"),
      .user 0 (ascii "alice@axiom"), .dele 0 1, .delete [ascii "bob@axiom"] true, .quit 0] =
        some t ∧ Isolated t := by
  have hr : (run (step axiomConfig) ⟨[], [], []⟩ [.register (ascii "<Alice@axiom>"),
      .autoCreate (ascii "bob@axiom"), .deliver (ascii "alice@axiom") (ascii "1") (ascii "hi"),
      .user 0 (ascii "alice@axiom"), .dele 0 1, .delete [ascii "bob@axiom"] true,
      .quit 0]).isSome := by decide +kernel
  obtain ⟨t, ht⟩ := Option.isSome_iff_exists.1 hr
  exact ⟨t, ht, (mailboxes_isolated (fun a b p ha => by simp at ha) rfl (by decide +kernel) ht).1⟩

/-- `a.b@axiom` and `a-b@axiom` have one slug, and so one maildir. -/
theorem mailboxes_shared_by_slug :
    Distinct ⟨[], [], []⟩ ∧ ∃ t, run (step axiomConfig) ⟨[], [], []⟩ [.register (ascii "a.b@axiom"),
      .register (ascii "a-b@axiom")] = some t ∧ ¬ Distinct t := by
  have hr : (run (step axiomConfig) ⟨[], [], []⟩ [.register (ascii "a.b@axiom"),
      .register (ascii "a-b@axiom")]).map (fun t =>
        (Table.get t.routes (ascii "a.b@axiom"), Table.get t.routes (ascii "a-b@axiom"))) =
      some (some [ascii "env", ascii "fatmama-mailbox-a-b-axiom", ascii "inbox"],
        some [ascii "env", ascii "fatmama-mailbox-a-b-axiom", ascii "inbox"]) := by decide +kernel
  obtain ⟨t, ht, he⟩ := Option.map_eq_some_iff.1 hr
  obtain ⟨ha, hb⟩ := Prod.mk.inj he
  refine ⟨fun a b p ha => by simp at ha, t, ht, fun hd => ?_⟩
  have hne : ascii "a.b@axiom" ≠ ascii "a-b@axiom" := by simp [ascii]
  exact hne (hd _ _ _ ha hb)

end Fatmama
