import AxiomCarriers.Fatmama.CollectorPass
import Mathlib.Data.List.Perm.Subperm

/-!
# The mail that waits for one site

A pass goes through its directories in order, and through the files of each in the order of their
names, every time from the first one.  The site is dialled again only when its stamp is old enough,
and there is one stamp for all directories of both collectors.  So where the site answers at once, a
pass offers it one file, the first one that is there; a file that is refused is there in the next
pass; and a dial for a file of another directory takes the turn of all.

`all_offered_iff` says that every file of an outbox is offered if and only if all but the last one
are accepted, and no file for the site comes before them, in an earlier directory or with the other
collector.
-/

namespace Fatmama.Collector

open Bytes

def Which.other : Which → Which
  | .outboxes => .pickup
  | .pickup => .outboxes

/-- The mail in the directories, and how a site answers to it.  The routes and the names of the
server are those of a time. -/
structure Backlog where
  setup : Setup
  which : Which
  routes : ℤ → List (Address × Path)
  extra : ℤ → List Bytes
  mine : ℤ → List Bytes
  advertised : ℤ → List Bytes
  content : Path → Bytes
  host : Bytes
  refuses : Path → Bool

/-- The files of the other collector, and `_xsite_last`. -/
structure Shared where
  others : List Path
  lastDial : List (Bytes × ℤ)
  deriving DecidableEq

/-- The files of a directory, in order, those of the directories that a pass comes to before it and
after it, and the files of the directory that were offered to the site. -/
structure Progress extends Shared where
  before : List Path
  files : List Path
  after : List Path
  offered : List Path
  deriving DecidableEq

/-- A pass: what the clock reads when it comes to a file, and for the stamp of its dial; the files
that the other collector comes to before that; and what has come into the other directories since the
last pass. -/
structure Round where
  look : Path → ℤ × ℤ
  meanwhile : Path → List (Path × ℤ × ℤ)
  early : List Path
  late : List Path
  foreign : List Path

namespace Backlog

/-- What is decided about a file at a time. -/
def plan (b : Backlog) (w : Which) (now : ℤ) (f : Path) : Plan :=
  Collector.plan { b.setup with domains := clusterDomains ++ b.extra now } (b.routes now)
    ⟨now, now, b.mine now, b.advertised now⟩ w f (b.content f)

/-- The file has the site to go to at the time. -/
def Site (b : Backlog) (w : Which) (now : ℤ) (f : Path) : Prop :=
  ∃ rcpt, b.plan w now f = .dial b.host rcpt

/-- The file has the site to go to, at all times. -/
def Remote (b : Backlog) (f : Path) : Prop := ∀ now, b.Site b.which now f

/-- The file has the site to go to, at some time. -/
def Goes (b : Backlog) (w : Which) (f : Path) : Prop := ∃ now, b.Site w now f

/-- A file in its turn, where all that the server does itself works. -/
def turn (b : Backlog) (look : ℤ × ℤ) (lastDial : List (Bytes × ℤ)) (f : Path) : Turn where
  file := f
  stat := .file
  reading := .ok (b.content f)
  routes := b.routes look.1
  extra := some (b.extra look.1)
  named := true
  env := ⟨look.1, look.2, b.mine look.1, b.advertised look.1⟩
  lastDial := lastDial
  delivered := true
  delivery := .returns (¬ b.refuses f)
  unlinked := true

/-- A collector comes to a file: whether the file stays, and the stamp of a dial for it. -/
def visit (b : Backlog) (w : Which) (look : ℤ × ℤ) (lastDial : List (Bytes × ℤ)) (f : Path) :
    Bool × List (Bytes × ℤ) :=
  match collect b.setup w ⟨0, []⟩ (b.turn look lastDial f) with
  | .ok tally => (tally.moved = 0, tally.dials)
  -- Nothing fails in such a turn.
  | .error _ => (true, [])

/-- The other collector comes to a file. -/
def aside (b : Backlog) (s : Shared) (x : Path × ℤ × ℤ) : Shared :=
  if x.1 ∈ s.others then
    let (stays, dials) := b.visit b.which.other x.2 s.lastDial x.1
    ⟨if stays then s.others else s.others.erase x.1, dials ++ s.lastDial⟩
  else s

/-- A pass through a directory: the files that stay, and those that were offered to the site. -/
def walk (b : Backlog) (r : Round) : List Path → Shared → List Path × List Path × Shared
  | [], s => ([], [], s)
  | f :: fs, s =>
    let s := (r.meanwhile f).foldl b.aside s
    let (stays, dials) := b.visit b.which (r.look f) s.lastDial f
    let (kept, offered, t) := b.walk r fs { s with lastDial := dials ++ s.lastDial }
    (if stays then f :: kept else kept,
      if dials.any (·.1 = b.host) then f :: offered else offered, t)

def pass (b : Backlog) (s : Progress) (r : Round) : Progress :=
  let (before, _, u) := b.walk r (s.before ++ r.early) ⟨s.others ++ r.foreign, s.lastDial⟩
  let (files, offered, u) := b.walk r s.files u
  let (after, _, u) := b.walk r (s.after ++ r.late) u
  ⟨u, before, files, after, s.offered ++ offered⟩

def passes (b : Backlog) (rounds : List Round) (s : Progress) : Progress := rounds.foldl b.pass s

/-- The stamp of the site. -/
def last (b : Backlog) (lastDial : List (Bytes × ℤ)) : ℤ := (Table.get lastDial b.host).getD 0

/-- A pass comes to its files when the stamp from before the first pass, and those of the passes
before it, are `CROSS_SITE_MIN_INTERVAL_S` old. -/
def Spaced (b : Backlog) (lastDial : List (Bytes × ℤ)) (rounds : List Round) : Prop :=
  (∀ r ∈ rounds, ∀ f, minInterval ≤ (r.look f).1 - b.last lastDial) ∧
    rounds.Pairwise fun r r' => ∀ f g, minInterval ≤ (r'.look g).1 - (r.look f).2

/-- The site answers at once: the pass comes to no file so long after the dial for another. -/
def Prompt (files : List Path) (r : Round) : Prop :=
  files.Pairwise fun f g => (r.look g).1 - (r.look f).2 < minInterval

/-- What is and comes in the directories before, and with the other collector. -/
structure Within (earlier foreign : Path → Prop) (s : Progress) (rounds : List Round) : Prop where
  before : ∀ f ∈ s.before, earlier f
  others : ∀ g ∈ s.others, foreign g
  early : ∀ r ∈ rounds, ∀ f ∈ r.early, earlier f
  foreign : ∀ r ∈ rounds, ∀ g ∈ r.foreign, foreign g

/-- No other file comes before those of the directory. -/
def Undisturbed (b : Backlog) : Progress → List Round → Prop :=
  Within (fun f => ¬ b.Goes b.which f) (fun g => ¬ b.Goes b.which.other g)

variable {b : Backlog} {w : Which} {look : ℤ × ℤ} {lastDial : List (Bytes × ℤ)} {r : Round}
  {rounds : List Round} {s t : Shared} {f : Path} {fs files : List Path}

/-! ## A file in its turn -/

theorem visit_eq (b : Backlog) (w : Which) (look : ℤ × ℤ) (lastDial : List (Bytes × ℤ)) (f : Path) :
    b.visit w look lastDial f =
      match b.plan w look.1 f with
      | .keep => (true, [])
      | .deliver _ => (false, [])
      | .dial host _ =>
        if look.1 - (Table.get lastDial host).getD 0 < minInterval then (true, [])
        else (b.refuses f, [(host, look.2)]) := by
  have hplan : ¬ Unplanned b.setup (b.turn look lastDial f) (b.content f) w := by
    cases w <;> simp [Unplanned, turn]
  have hdecision : Collector.plan ((b.turn look lastDial f).setup b.setup)
      (b.turn look lastDial f).routes (b.turn look lastDial f).env w f (b.content f) =
        b.plan w look.1 f := by
    cases w <;> rfl
  have hplanning : planning b.setup w (b.turn look lastDial f) (b.content f) =
      .ok (b.plan w look.1 f) := (planning_ok hplan).trans (congrArg _ hdecision)
  have hstat : (b.turn look lastDial f).stat = .file := rfl
  have hreading : (b.turn look lastDial f).reading = .ok (b.content f) := rfl
  simp only [visit, collect, hstat, hreading, hplanning]
  cases b.plan w look.1 f with
  | keep => rfl
  | deliver dest => rfl
  | dial host rcpt =>
    by_cases hlast : look.1 - (Table.get lastDial host).getD 0 < minInterval
    · simp [turn, hlast]
    · cases hrefuses : b.refuses f <;> simp [turn, hlast, hrefuses]

/-- A file for another place leaves the stamp of the site. -/
theorem visit_quiet (h : ¬ b.Site w look.1 f) :
    ∀ x ∈ (b.visit w look lastDial f).2, x.1 ≠ b.host := by
  rw [visit_eq]
  cases hplan : b.plan w look.1 f with
  | keep => simp
  | deliver dest => simp
  | dial host rcpt =>
    have hne : host ≠ b.host := fun he => h ⟨rcpt, he ▸ hplan⟩
    dsimp only
    split_ifs <;> simp [hne]

theorem visit_early (hf : b.Site w look.1 f) (h : look.1 - b.last lastDial < minInterval) :
    b.visit w look lastDial f = (true, []) := by
  obtain ⟨rcpt, hplan⟩ := hf
  rw [last] at h
  simp only [visit_eq, hplan, if_pos h]

theorem visit_late (hf : b.Site w look.1 f) (h : minInterval ≤ look.1 - b.last lastDial) :
    b.visit w look lastDial f = (b.refuses f, [(b.host, look.2)]) := by
  obtain ⟨rcpt, hplan⟩ := hf
  rw [last, ← not_lt] at h
  simp only [visit_eq, hplan, if_neg h]

@[simp] theorem last_cons (b : Backlog) (stamp : ℤ) (lastDial : List (Bytes × ℤ)) :
    b.last ((b.host, stamp) :: lastDial) = stamp := by
  simp [last, Table.get_cons]

theorem last_append {dials : List (Bytes × ℤ)} (h : ∀ x ∈ dials, x.1 ≠ b.host)
    (lastDial : List (Bytes × ℤ)) : b.last (dials ++ lastDial) = b.last lastDial := by
  induction dials with
  | nil => rfl
  | cons x dials ih =>
    obtain ⟨hx, hdials⟩ := List.forall_mem_cons.1 h
    obtain ⟨host, stamp⟩ := x
    rw [← ih hdials, List.cons_append, last, last, Table.get_cons, if_neg hx]

/-! ## The other collector -/

theorem aside_quiet (hs : ∀ g ∈ s.others, ¬ b.Goes b.which.other g) (x : Path × ℤ × ℤ) :
    b.last (b.aside s x).lastDial = b.last s.lastDial ∧ (b.aside s x).others ⊆ s.others := by
  unfold aside
  split_ifs with hx
  · refine ⟨last_append (visit_quiet fun hsite => hs x.1 hx ⟨_, hsite⟩) _, ?_⟩
    dsimp only
    split_ifs
    · exact List.Subset.refl _
    · exact List.erase_subset
  · exact ⟨rfl, List.Subset.refl _⟩

/-- While nothing that the other collector has is for the site, its stamp stays. -/
theorem foldl_aside_quiet (hs : ∀ g ∈ s.others, ¬ b.Goes b.which.other g)
    (xs : List (Path × ℤ × ℤ)) :
    b.last (xs.foldl b.aside s).lastDial = b.last s.lastDial ∧
      (xs.foldl b.aside s).others ⊆ s.others := by
  induction xs generalizing s with
  | nil => exact ⟨rfl, List.Subset.refl _⟩
  | cons x xs ih =>
    obtain ⟨hlast, hothers⟩ := aside_quiet hs x
    obtain ⟨hlast', hothers'⟩ := ih fun g hg => hs g (hothers hg)
    exact ⟨hlast'.trans hlast, List.Subset.trans hothers' hothers⟩

/-! ## A directory -/

theorem walk_cons (b : Backlog) (r : Round) (f : Path) (fs : List Path) (s : Shared) :
    b.walk r (f :: fs) s =
      let t := (r.meanwhile f).foldl b.aside s
      let v := b.visit b.which (r.look f) t.lastDial f
      let rest := b.walk r fs { t with lastDial := v.2 ++ t.lastDial }
      (if v.1 then f :: rest.1 else rest.1, if v.2.any (·.1 = b.host) then f :: rest.2.1 else rest.2.1,
        rest.2.2) := rfl

/-- Nothing that the other collector has is for the site. -/
def Quiet (b : Backlog) (s : Shared) : Prop := ∀ g ∈ s.others, ¬ b.Goes b.which.other g

/-- What a pass through a directory comes to, however long the site takes. -/
structure Walked (b : Backlog) (r : Round) (fs : List Path) (s : Shared)
    (x : List Path × List Path × Shared) : Prop where
  kept : x.1.Sublist fs
  /-- What does not stay was offered. -/
  offered : ∀ f ∈ fs, b.Remote f → f ∈ x.1 ∨ f ∈ x.2.1
  last : b.last x.2.2.lastDial = b.last s.lastDial ∨ ∃ f ∈ fs, b.last x.2.2.lastDial = (r.look f).2
  quiet : b.Quiet x.2.2

theorem visit_cases (b : Backlog) (w : Which) (look : ℤ × ℤ) (lastDial : List (Bytes × ℤ)) (f : Path) :
    (¬ b.Site w look.1 f ∧ ∀ x ∈ (b.visit w look lastDial f).2, x.1 ≠ b.host) ∨
      (look.1 - b.last lastDial < minInterval ∧ b.visit w look lastDial f = (true, [])) ∨
      (minInterval ≤ look.1 - b.last lastDial ∧
        b.visit w look lastDial f = (b.refuses f, [(b.host, look.2)])) := by
  by_cases hf : b.Site w look.1 f
  · rcases lt_or_ge (look.1 - b.last lastDial) minInterval with h | h
    · exact Or.inr (Or.inl ⟨h, visit_early hf h⟩)
    · exact Or.inr (Or.inr ⟨h, visit_late hf h⟩)
  · exact Or.inl ⟨hf, visit_quiet hf⟩

theorem walked (hs : b.Quiet s) (fs : List Path) : Walked b r fs s (b.walk r fs s) := by
  induction fs generalizing s with
  | nil => exact ⟨List.Sublist.slnil, fun f hf => absurd hf List.not_mem_nil, Or.inl rfl, hs⟩
  | cons f fs ih =>
    rw [walk_cons]
    dsimp only
    obtain ⟨hlast, hothers⟩ := foldl_aside_quiet hs (r.meanwhile f)
    generalize (r.meanwhile f).foldl b.aside s = t at hlast hothers
    have hcases := visit_cases b b.which (r.look f) t.lastDial f
    generalize b.visit b.which (r.look f) t.lastDial f = v at hcases
    obtain ⟨hkept, hoffered, hstamp, hquiet⟩ :=
      @ih ⟨t.others, v.2 ++ t.lastDial⟩ fun g hg => hs g (hothers hg)
    generalize b.walk r fs ⟨t.others, v.2 ++ t.lastDial⟩ = rest at hkept hoffered hstamp hquiet
    refine ⟨?_, List.forall_mem_cons.2 ⟨fun hremote => ?_, fun g hg hremote => ?_⟩, ?_, hquiet⟩
    · dsimp only
      split_ifs
      · exact hkept.cons_cons f
      · exact hkept.cons f
    · rcases hcases with ⟨hsite, -⟩ | ⟨-, rfl⟩ | ⟨-, rfl⟩
      · exact absurd (hremote _) hsite
      · exact Or.inl List.mem_cons_self
      · exact Or.inr (by simp)
    · rcases hoffered g hg hremote with h | h
      · exact Or.inl (by split_ifs <;> simp [h])
      · exact Or.inr (by split_ifs <;> simp [h])
    · have hmine : b.last (v.2 ++ t.lastDial) = b.last s.lastDial ∨
          b.last (v.2 ++ t.lastDial) = (r.look f).2 := by
        rcases hcases with ⟨-, hdials⟩ | ⟨-, rfl⟩ | ⟨-, rfl⟩
        · exact Or.inl ((last_append hdials _).trans hlast)
        · exact Or.inl hlast
        · exact Or.inr (last_cons b _ _)
      rcases hstamp with hstamp | ⟨g, hg, hstamp⟩
      · rw [hstamp]
        exact hmine.imp_right fun h => ⟨f, List.mem_cons_self, h⟩
      · exact Or.inr ⟨g, List.mem_cons_of_mem f hg, hstamp⟩

/-- A directory without a file for the site leaves its stamp. -/
theorem last_walk_quiet (hs : b.Quiet s) (hfs : ∀ f ∈ fs, ¬ b.Goes b.which f) :
    b.last (b.walk r fs s).2.2.lastDial = b.last s.lastDial := by
  induction fs generalizing s with
  | nil => rfl
  | cons f fs ih =>
    obtain ⟨hf, hfs⟩ := List.forall_mem_cons.1 hfs
    obtain ⟨hlast, hothers⟩ := foldl_aside_quiet hs (r.meanwhile f)
    rw [walk_cons]
    dsimp only
    generalize (r.meanwhile f).foldl b.aside s = t at hlast hothers
    have hvisit := @visit_quiet b b.which (r.look f) t.lastDial f fun hsite => hf ⟨_, hsite⟩
    have hrest := @ih ⟨t.others, (b.visit b.which (r.look f) t.lastDial f).2 ++ t.lastDial⟩
      (fun g hg => hs g (hothers hg)) hfs
    exact hrest.trans ((last_append hvisit _).trans hlast)

/-- The first file is offered when the stamp of the site is old enough. -/
theorem walk_late (hs : b.Quiet s) (hf : b.Remote f)
    (h : minInterval ≤ (r.look f).1 - b.last s.lastDial) :
    ∃ t, b.Quiet t ∧ b.last t.lastDial = (r.look f).2 ∧ b.walk r (f :: fs) s =
      (if b.refuses f then f :: (b.walk r fs t).1 else (b.walk r fs t).1,
        f :: (b.walk r fs t).2.1, (b.walk r fs t).2.2) := by
  obtain ⟨hlast, hothers⟩ := foldl_aside_quiet hs (r.meanwhile f)
  rw [← hlast] at h
  refine ⟨⟨((r.meanwhile f).foldl b.aside s).others,
    (b.host, (r.look f).2) :: ((r.meanwhile f).foldl b.aside s).lastDial⟩,
    fun g hg => hs g (hothers hg), last_cons b _ _, ?_⟩
  rw [walk_cons]
  simp [visit_late (hf _) h]

/-- A pass that comes too early to all files of a directory leaves them. -/
theorem walk_early (hs : b.Quiet s) (hremote : ∀ f ∈ fs, b.Remote f)
    (h : ∀ f ∈ fs, (r.look f).1 - b.last s.lastDial < minInterval) :
    (b.walk r fs s).1 = fs ∧ (b.walk r fs s).2.1 = [] := by
  induction fs generalizing s with
  | nil => exact ⟨rfl, rfl⟩
  | cons f fs ih =>
    rw [List.forall_mem_cons] at hremote h
    obtain ⟨hlast, hothers⟩ := foldl_aside_quiet hs (r.meanwhile f)
    rw [← hlast] at h
    obtain ⟨hkept, hoffered⟩ := @ih ((r.meanwhile f).foldl b.aside s)
      (fun g hg => hs g (hothers hg)) hremote.2 h.2
    rw [walk_cons]
    simp [visit_early (hremote.1 _) h.1, hkept, hoffered]

/-! ## A pass -/

theorem passes_cons (b : Backlog) (r : Round) (rounds : List Round) (s : Progress) :
    b.passes (r :: rounds) s = b.passes rounds (b.pass s r) := rfl

/-- A pass comes to the directory with the stamp that the site had before, and leaves it with that
or one of its own. -/
theorem pass_spec {s : Progress} (h : b.Undisturbed s (r :: rounds)) :
    (∃ u, b.Quiet u ∧ b.last u.lastDial = b.last s.lastDial ∧
      (b.pass s r).files = (b.walk r s.files u).1 ∧
      (b.pass s r).offered = s.offered ++ (b.walk r s.files u).2.1) ∧
    (b.last (b.pass s r).lastDial = b.last s.lastDial ∨
      ∃ f, b.last (b.pass s r).lastDial = (r.look f).2) ∧
    b.Undisturbed (b.pass s r) rounds := by
  obtain ⟨hbefore, hothers, hearly, hforeign⟩ := h
  have hquiet : b.Quiet ⟨s.others ++ r.foreign, s.lastDial⟩ := by
    intro g hg
    rcases List.mem_append.1 hg with hg | hg
    · exact hothers g hg
    · exact hforeign r List.mem_cons_self g hg
  have hnone : ∀ f ∈ s.before ++ r.early, ¬ b.Goes b.which f := by
    intro f hf
    rcases List.mem_append.1 hf with hf | hf
    · exact hbefore f hf
    · exact hearly r List.mem_cons_self f hf
  have hfirst := @walked b r _ hquiet (s.before ++ r.early)
  have hsecond := @walked b r _ hfirst.quiet s.files
  have hthird := @walked b r _ hsecond.quiet (s.after ++ r.late)
  have hlast := @last_walk_quiet b r _ _ hquiet hnone
  refine ⟨⟨_, hfirst.quiet, hlast, rfl, rfl⟩, ?_, ?_⟩
  · rcases hthird.last with hthird | ⟨f, -, hstamp⟩
    · rcases hsecond.last with hsecond | ⟨f, -, hstamp⟩
      · exact Or.inl (hthird.trans (hsecond.trans hlast))
      · exact Or.inr ⟨f, hthird.trans hstamp⟩
    · exact Or.inr ⟨f, hstamp⟩
  · exact ⟨fun f hf => hnone f (hfirst.kept.subset hf), hthird.quiet,
      fun r' hr => hearly r' (List.mem_cons_of_mem r hr),
      fun r' hr => hforeign r' (List.mem_cons_of_mem r hr)⟩

/-- The passes that follow find the stamp of a pass old enough as well. -/
theorem spaced_pass {s : Progress} (h : b.Undisturbed s (r :: rounds))
    (hspaced : b.Spaced s.lastDial (r :: rounds)) : b.Spaced (b.pass s r).lastDial rounds := by
  obtain ⟨hold, hapart⟩ := hspaced
  obtain ⟨hafter, hapart⟩ := List.pairwise_cons.1 hapart
  refine ⟨fun r' hr g => ?_, hapart⟩
  rcases (pass_spec h).2.1 with hlast | ⟨f, hstamp⟩
  · rw [hlast]
    exact hold r' (List.mem_cons_of_mem r hr) g
  · rw [hstamp]
    exact hafter r' hr f g

theorem offered_pass (b : Backlog) (s : Progress) (r : Round) :
    s.offered ⊆ (b.pass s r).offered := List.subset_append_left _ _

theorem offered_passes (b : Backlog) (rounds : List Round) (s : Progress) :
    s.offered ⊆ (b.passes rounds s).offered := by
  induction rounds generalizing s with
  | nil => exact List.Subset.refl _
  | cons r rounds ih => exact List.Subset.trans (offered_pass b s r) (ih _)

/-- The first file of the directory is offered, and is moved if it is accepted. -/
theorem pass_first {s : Progress} (h : b.Undisturbed s (r :: rounds))
    (hspaced : b.Spaced s.lastDial (r :: rounds)) (hremote : ∀ g ∈ f :: fs, b.Remote g)
    (hs : s.files = f :: fs) :
    f ∈ (b.pass s r).offered ∧ (b.pass s r).files ⊆ s.files ∧
      (¬ b.refuses f → (b.pass s r).files.Sublist fs ∧
        ∀ g ∈ fs, g ∈ (b.pass s r).files ∨ g ∈ (b.pass s r).offered) := by
  obtain ⟨hf, hfs⟩ := List.forall_mem_cons.1 hremote
  obtain ⟨u, hquiet, hlast, hfiles, hoffered⟩ := (pass_spec h).1
  have hkept := (@walked b r u hquiet s.files).kept
  have hlate := hlast ▸ hspaced.1 r List.mem_cons_self f
  obtain ⟨t, ht, -, hwalk⟩ := walk_late hquiet hf hlate
  have hrest := @walked b r t ht fs
  rw [hs] at hkept hfiles hoffered
  rw [hwalk] at hkept hfiles hoffered
  rw [hfiles, hoffered, hs]
  refine ⟨by simp, hkept.subset, fun haccepted => ?_⟩
  simp only [if_neg haccepted]
  refine ⟨hrest.kept, fun g hg => (hrest.offered g hg (hfs g hg)).imp_right fun h => ?_⟩
  exact List.mem_append_right _ (List.mem_cons_of_mem f h)

/-- Where the site answers at once, a pass offers the first file, and comes too early to the
others. -/
theorem pass_prompt {s : Progress} (h : b.Undisturbed s (r :: rounds))
    (hspaced : b.Spaced s.lastDial (r :: rounds)) (hremote : ∀ g ∈ f :: fs, b.Remote g)
    (hs : s.files = f :: fs) (hprompt : Prompt (f :: fs) r) :
    (b.pass s r).files = (if b.refuses f then f :: fs else fs) ∧
      (b.pass s r).offered = s.offered ++ [f] := by
  obtain ⟨hf, hfs⟩ := List.forall_mem_cons.1 hremote
  obtain ⟨u, hquiet, hlast, hfiles, hoffered⟩ := (pass_spec h).1
  have hlate := hlast ▸ hspaced.1 r List.mem_cons_self f
  obtain ⟨t, ht, hstamp, hwalk⟩ := walk_late hquiet hf hlate
  obtain ⟨hkept, hnone⟩ := walk_early ht hfs fun g hg => by
    rw [hstamp]
    exact (List.pairwise_cons.1 hprompt).1 g hg
  rw [hs, hwalk] at hfiles hoffered
  rw [hfiles, hoffered, hkept, hnone]
  exact ⟨rfl, rfl⟩

/-! ## The passes -/

theorem dropLast_sublist_dropLast {l l' : List Path} (h : l.Sublist l') :
    l.dropLast.Sublist l'.dropLast := by
  have htail := h.reverse.tail
  rwa [List.tail_reverse, List.tail_reverse, List.reverse_sublist] at htail

/-- Every pass moves the first file, or offers the last one. -/
theorem offered_of_accepted {s : Progress} (h : b.Undisturbed s rounds)
    (hspaced : b.Spaced s.lastDial rounds) (hremote : ∀ f ∈ s.files, b.Remote f)
    (hlen : s.files.length ≤ rounds.length) (haccepted : ∀ f ∈ s.files.dropLast, ¬ b.refuses f) :
    ∀ f ∈ s.files, f ∈ (b.passes rounds s).offered := by
  induction rounds generalizing s with
  | nil =>
    rw [List.eq_nil_of_length_eq_zero (Nat.le_zero.1 hlen)]
    exact fun f hf => absurd hf List.not_mem_nil
  | cons r rounds ih =>
    cases hs : s.files with
    | nil => exact fun f hf => absurd hf List.not_mem_nil
    | cons f fs =>
      have hmono := offered_passes b rounds (b.pass s r)
      obtain ⟨hoffered, hsub, hmoved⟩ := pass_first h hspaced (hs ▸ hremote) hs
      rw [passes_cons]
      refine List.forall_mem_cons.2 ⟨hmono hoffered, fun g hg => ?_⟩
      rw [hs, List.dropLast_cons_of_ne_nil (List.ne_nil_of_mem hg),
        List.forall_mem_cons] at haccepted
      obtain ⟨hfiles, hrest⟩ := hmoved haccepted.1
      rcases hrest g hg with hkept | hdone
      · refine ih (pass_spec h).2.2 (spaced_pass h hspaced) (fun k hk => hremote k (hsub hk)) ?_
          (fun k hk => ?_) g hkept
        · have := hfiles.length_le
          rw [hs, List.length_cons, List.length_cons] at hlen
          omega
        · exact haccepted.2 k ((dropLast_sublist_dropLast hfiles).subset hk)
      · exact hmono hdone

/-- A first file that is refused is offered in every pass, and no other one. -/
theorem offered_of_refused {s : Progress} (h : b.Undisturbed s rounds)
    (hspaced : b.Spaced s.lastDial rounds) (hremote : ∀ f ∈ s.files, b.Remote f)
    (hprompt : ∀ r ∈ rounds, Prompt s.files r) (hs : s.files = f :: fs) (hrefuses : b.refuses f) :
    ∀ g ∈ (b.passes rounds s).offered, g ∈ s.offered ∨ g = f := by
  induction rounds generalizing s with
  | nil => exact fun g hg => Or.inl hg
  | cons r rounds ih =>
    obtain ⟨hfirst, hrest⟩ := List.forall_mem_cons.1 hprompt
    obtain ⟨hfiles, hoffered⟩ := pass_prompt h hspaced (hs ▸ hremote) hs (hs ▸ hfirst)
    rw [if_pos hrefuses, ← hs] at hfiles
    intro g hg
    rcases ih (pass_spec h).2.2 (spaced_pass h hspaced) (hfiles ▸ hremote) (hfiles ▸ hrest)
      (hfiles.trans hs) g hg with hg | hg
    · rw [hoffered] at hg
      exact (List.mem_append.1 hg).imp_right List.mem_singleton.1
    · exact Or.inr hg

/-- Every file is offered only if all but the last one are accepted. -/
theorem accepted_of_offered {s : Progress} (h : b.Undisturbed s rounds)
    (hspaced : b.Spaced s.lastDial rounds) (hremote : ∀ f ∈ s.files, b.Remote f)
    (hprompt : ∀ r ∈ rounds, Prompt s.files r) (hnodup : s.files.Nodup)
    (hnew : ∀ f ∈ s.files, f ∉ s.offered)
    (hoffered : ∀ f ∈ s.files, f ∈ (b.passes rounds s).offered) :
    ∀ f ∈ s.files.dropLast, ¬ b.refuses f := by
  induction rounds generalizing s with
  | nil =>
    intro f hf
    have hthere := List.dropLast_subset _ hf
    exact absurd (hoffered f hthere) (hnew f hthere)
  | cons r rounds ih =>
    cases hs : s.files with
    | nil => exact fun f hf => absurd hf List.not_mem_nil
    | cons f fs =>
      have hrefused := @offered_of_refused b (r :: rounds) f fs s h hspaced hremote hprompt hs
      rw [hs] at hremote hnodup hnew hoffered hprompt
      obtain ⟨hne, hnodup⟩ := List.nodup_cons.1 hnodup
      obtain ⟨-, hremote'⟩ := List.forall_mem_cons.1 hremote
      obtain ⟨-, hnew⟩ := List.forall_mem_cons.1 hnew
      obtain ⟨-, hoffered⟩ := List.forall_mem_cons.1 hoffered
      obtain ⟨hfirst, hrest⟩ := List.forall_mem_cons.1 hprompt
      by_cases hrefuses : b.refuses f
      · -- none is behind it
        have hnone : fs = [] := by
          refine List.eq_nil_iff_forall_not_mem.2 fun g hg => ?_
          rcases hrefused hrefuses g (hoffered g hg) with hold | rfl
          · exact hnew g hg hold
          · exact hne hg
        rw [hnone]
        exact fun g hg => absurd hg List.not_mem_nil
      · obtain ⟨hfiles, hpassed⟩ := pass_prompt h hspaced hremote hs hfirst
        rw [if_neg hrefuses] at hfiles
        have hunoffered : ∀ g ∈ fs, g ∉ (b.pass s r).offered := by
          intro g hg hold
          rw [hpassed] at hold
          rcases List.mem_append.1 hold with hold | hold
          · exact hnew g hg hold
          · exact hne (List.mem_singleton.1 hold ▸ hg)
        have haccepted := @ih (b.pass s r) (pass_spec h).2.2 (spaced_pass h hspaced)
          (hfiles.symm ▸ hremote') (fun r' hr => hfiles.symm ▸ (hrest r' hr).of_cons)
          (hfiles.symm ▸ hnodup) (hfiles.symm ▸ hunoffered) (hfiles.symm ▸ hoffered)
        rw [hfiles] at haccepted
        intro g hg
        cases fs with
        | nil => exact absurd hg List.not_mem_nil
        | cons k ks =>
          rcases List.mem_cons.1 hg with rfl | hg
          · exact hrefuses
          · exact haccepted g hg

/-! ## A turn that is lost -/

/-- All that happens in the pass happens at one time. -/
def At (now : ℤ) (r : Round) : Prop :=
  (∀ f, r.look f = (now, now)) ∧ ∀ f, ∀ x ∈ r.meanwhile f, x.2 = (now, now)

/-- The site may not be dialled. -/
def Early (b : Backlog) (now : ℤ) (lastDial : List (Bytes × ℤ)) : Prop :=
  now - b.last lastDial < minInterval

/-- A dial for the site at a time is the last one at that time. -/
theorem visit_at (b : Backlog) (w : Which) (now : ℤ) (lastDial : List (Bytes × ℤ)) (f : Path) :
    (∀ x ∈ (b.visit w (now, now) lastDial f).2, x.1 ≠ b.host) ∧
        (b.Early now lastDial → b.Early now ((b.visit w (now, now) lastDial f).2 ++ lastDial)) ∨
      ¬ b.Early now lastDial ∧ b.Early now ((b.visit w (now, now) lastDial f).2 ++ lastDial) := by
  rcases visit_cases b w (now, now) lastDial f with ⟨-, hdials⟩ | ⟨-, hv⟩ | ⟨hlate, hv⟩
  · refine Or.inl ⟨hdials, fun h => ?_⟩
    rw [Early, last_append hdials]
    exact h
  · rw [hv]
    exact Or.inl ⟨by simp, id⟩
  · rw [hv]
    refine Or.inr ⟨not_lt.2 hlate, ?_⟩
    rw [Early, List.singleton_append, last_cons, sub_self]
    decide

theorem aside_at {now : ℤ} {x : Path × ℤ × ℤ} (hx : x.2 = (now, now)) (h : b.Early now s.lastDial) :
    b.Early now (b.aside s x).lastDial := by
  obtain ⟨f, look⟩ := x
  obtain rfl : look = (now, now) := hx
  unfold aside
  split_ifs
  · rcases visit_at b b.which.other now s.lastDial f with ⟨-, hearly⟩ | ⟨hlate, -⟩
    · exact hearly h
    · exact absurd h hlate
  · exact h

theorem foldl_aside_at {now : ℤ} {xs : List (Path × ℤ × ℤ)} (hxs : ∀ x ∈ xs, x.2 = (now, now))
    (h : b.Early now s.lastDial) : b.Early now (xs.foldl b.aside s).lastDial := by
  induction xs generalizing s with
  | nil => exact h
  | cons x xs ih =>
    obtain ⟨hx, hxs⟩ := List.forall_mem_cons.1 hxs
    exact ih hxs (aside_at hx h)

/-- A pass at one time offers at most one file of the directory; and none if the stamp is too young
once it has come to the first one. -/
theorem walk_at {now : ℤ} (hr : At now r) (fs : List Path) (s : Shared) :
    (b.walk r fs s).2.1.length ≤ 1 ∧
      ((∀ f ∈ fs.head?, b.Early now ((r.meanwhile f).foldl b.aside s).lastDial) →
        (b.walk r fs s).2.1 = []) := by
  induction fs generalizing s with
  | nil => exact ⟨Nat.zero_le 1, fun _ => rfl⟩
  | cons f fs ih =>
    rw [walk_cons, hr.1 f]
    dsimp only
    generalize ht : (r.meanwhile f).foldl b.aside s = t
    have hvisit := visit_at b b.which now t.lastDial f
    generalize b.visit b.which (now, now) t.lastDial f = v at hvisit
    obtain ⟨hlen, hnone⟩ := ih ⟨t.others, v.2 ++ t.lastDial⟩
    have hrest : b.Early now (v.2 ++ t.lastDial) →
        (b.walk r fs ⟨t.others, v.2 ++ t.lastDial⟩).2.1 = [] :=
      fun h => hnone fun g _ => foldl_aside_at (hr.2 g) h
    rcases hvisit with ⟨hdials, hearly⟩ | ⟨hlate, hstamp⟩
    · have hno : v.2.any (fun x => x.1 = b.host) = false := by simpa using hdials
      simp only [hno, Bool.false_eq_true, if_false]
      exact ⟨hlen, fun h => hrest (hearly (ht ▸ h f rfl))⟩
    · rw [hrest hstamp]
      refine ⟨?_, fun h => absurd (ht ▸ h f rfl) hlate⟩
      split_ifs <;> simp

theorem pass_at {now : ℤ} (hr : At now r) (s : Progress) :
    (b.pass s r).offered.length ≤ s.offered.length + 1 := by
  have hlen := (@walk_at b r now hr s.files (b.walk r (s.before ++ r.early)
    ⟨s.others ++ r.foreign, s.lastDial⟩).2.2).1
  have hoffered : (b.pass s r).offered = s.offered ++ (b.walk r s.files (b.walk r
    (s.before ++ r.early) ⟨s.others ++ r.foreign, s.lastDial⟩).2.2).2.1 := rfl
  rw [hoffered, List.length_append]
  omega

theorem passes_at (hrounds : ∀ r ∈ rounds, ∃ now, At now r) (s : Progress) :
    (b.passes rounds s).offered.length ≤ s.offered.length + rounds.length := by
  induction rounds generalizing s with
  | nil => exact le_rfl
  | cons r rounds ih =>
    obtain ⟨⟨now, hr⟩, hrounds⟩ := List.forall_mem_cons.1 hrounds
    have hfirst := @pass_at b r now hr s
    have hrest := ih hrounds (b.pass s r)
    rw [passes_cons, List.length_cons]
    omega

/-! ## After as many passes as there are files -/

/-- After as many passes as there are files every file of the directory was offered, whenever the
passes come, and whatever such files are and come elsewhere. -/
def OffersAll (b : Backlog) (earlier foreign : Path → Prop) (files : List Path) : Prop :=
  ∀ (s : Progress) rounds, s.files = files → s.offered = [] → Within earlier foreign s rounds →
    b.Spaced s.lastDial rounds → files.length ≤ rounds.length →
      ∀ f ∈ files, f ∈ (b.passes rounds s).offered

/-- Passes that take no time, one interval after the other, in which nothing else happens. -/
def evenRounds (now : ℤ) (n : ℕ) : List Round :=
  (List.range n).map fun (i : ℕ) =>
    ⟨fun _ => (now + minInterval * i, now + minInterval * i), fun _ => [], [], [], []⟩

theorem at_evenRounds (now : ℤ) (n : ℕ) : ∀ r ∈ evenRounds now n, ∃ now, At now r := by
  intro r hr
  obtain ⟨i, -, rfl⟩ := List.mem_map.1 hr
  exact ⟨_, fun _ => rfl, fun _ x hx => absurd hx List.not_mem_nil⟩

theorem prompt_of_at {now : ℤ} (hr : At now r) (files : List Path) : Prompt files r := by
  refine List.pairwise_of_forall fun f g => ?_
  rw [hr.1 f, hr.1 g, sub_self]
  decide

theorem within_evenRounds {earlier foreign : Path → Prop} {s : Progress}
    (hbefore : ∀ f ∈ s.before, earlier f) (hothers : ∀ g ∈ s.others, foreign g) (now : ℤ) (n : ℕ) :
    Within earlier foreign s (evenRounds now n) := by
  refine ⟨hbefore, hothers, fun r hr f hf => ?_, fun r hr g hg => ?_⟩ <;>
    obtain ⟨i, -, rfl⟩ := List.mem_map.1 hr
  · exact absurd hf List.not_mem_nil
  · exact absurd hg List.not_mem_nil

theorem spaced_evenRounds {now : ℤ} (h : minInterval ≤ now - b.last lastDial) (n : ℕ) :
    b.Spaced lastDial (evenRounds now n) := by
  constructor
  · intro r hr f
    obtain ⟨i, -, rfl⟩ := List.mem_map.1 hr
    simp only [minInterval] at *
    omega
  · refine List.pairwise_map.2 (List.pairwise_lt_range.imp fun hlt f g => ?_)
    simp only [minInterval]
    omega

/-- A turn that is lost is not made up for. -/
theorem not_offersAll_of_lost {earlier foreign : Path → Prop} (hnodup : files.Nodup)
    (hne : files ≠ []) (s : Progress) (now : ℤ) (hfiles : s.files = files) (hoffered : s.offered = [])
    (hspaced : minInterval ≤ now - b.last s.lastDial) (hr : At now r)
    (hlook : r.early = [] ∧ r.foreign = []) (hbefore : ∀ f ∈ s.before, earlier f)
    (hothers : ∀ g ∈ s.others, foreign g) (hlost : (b.pass s r).offered = []) :
    ¬ b.OffersAll earlier foreign files := by
  intro h
  have hpos : 0 < files.length := List.length_pos_of_ne_nil hne
  have hrounds := at_evenRounds (now + minInterval) (files.length - 1)
  have hwithin := @within_evenRounds earlier foreign s hbefore hothers (now + minInterval)
    (files.length - 1)
  have hall : Within earlier foreign s (r :: evenRounds (now + minInterval) (files.length - 1)) := by
    refine ⟨hbefore, hothers, List.forall_mem_cons.2 ⟨?_, hwithin.early⟩,
      List.forall_mem_cons.2 ⟨?_, hwithin.foreign⟩⟩
    · simp [hlook.1]
    · simp [hlook.2]
  have heven : b.Spaced s.lastDial (r :: evenRounds (now + minInterval) (files.length - 1)) := by
    have hlater : minInterval ≤ now + minInterval - b.last s.lastDial := by
      simp only [minInterval] at *
      omega
    obtain ⟨hold, hapart⟩ := @spaced_evenRounds b s.lastDial _ hlater (files.length - 1)
    refine ⟨List.forall_mem_cons.2 ⟨fun f => by rw [hr.1]; exact hspaced, hold⟩,
      List.pairwise_cons.2 ⟨fun r' hr' f g => ?_, hapart⟩⟩
    obtain ⟨i, -, rfl⟩ := List.mem_map.1 hr'
    rw [hr.1]
    simp only [minInterval]
    omega
  have hlength : (r :: evenRounds (now + minInterval) (files.length - 1)).length = files.length := by
    simp only [List.length_cons, evenRounds, List.length_map, List.length_range]
    omega
  have hsub := h s _ hfiles hoffered hall heven hlength.ge
  have hcount := @passes_at b _ hrounds (b.pass s r)
  rw [hlost] at hcount
  have hle := (List.subperm_of_subset hnodup hsub).length_le
  rw [passes_cons] at hle
  simp only [evenRounds, List.length_map, List.length_range, List.length_nil] at hcount
  simp only [evenRounds] at hle
  omega

/-- A file for the site in an earlier directory takes a turn. -/
theorem not_offersAll_of_earlier {earlier foreign : Path → Prop} (hnodup : files.Nodup)
    (hne : files ≠ []) (hf : earlier f) (hgoes : b.Goes b.which f) :
    ¬ b.OffersAll earlier foreign files := by
  obtain ⟨now, hsite⟩ := hgoes
  let r : Round := ⟨fun _ => (now, now), fun _ => [], [], [], []⟩
  have hr : At now r := ⟨fun _ => rfl, fun _ x hx => absurd hx List.not_mem_nil⟩
  let s : Progress := ⟨⟨[], [(b.host, now - minInterval)]⟩, [f], files, [], []⟩
  have hlast : b.last s.lastDial = now - minInterval := last_cons b _ []
  have hlate : minInterval ≤ (now, now).1 - b.last s.lastDial := by rw [hlast]; simp
  refine not_offersAll_of_lost hnodup hne s now rfl rfl hlate hr ⟨rfl, rfl⟩ ?_
    (fun g hg => absurd hg List.not_mem_nil) ?_
  · exact fun g hg => List.mem_singleton.1 hg ▸ hf
  · have hvisit := visit_late hsite hlate
    have hwalk : (b.walk r ([f] ++ []) ⟨[], s.lastDial⟩).2.2 =
        ⟨[], (b.host, now) :: s.lastDial⟩ := by
      rw [List.append_nil, walk_cons]
      simp [r, hvisit, walk]
    have hpass : (b.pass s r).offered =
        (b.walk r files (b.walk r ([f] ++ []) ⟨[], s.lastDial⟩).2.2).2.1 := rfl
    rw [hpass, hwalk]
    refine (walk_at hr files _).2 fun g _ => ?_
    show now - b.last ((b.host, now) :: s.lastDial) < minInterval
    rw [last_cons, sub_self]
    decide

/-- A file for the site that the other collector has takes a turn. -/
theorem not_offersAll_of_foreign {earlier foreign : Path → Prop} (hnodup : files.Nodup)
    (hne : files ≠ []) (hf : foreign f) (hgoes : b.Goes b.which.other f) :
    ¬ b.OffersAll earlier foreign files := by
  obtain ⟨now, hsite⟩ := hgoes
  let r : Round := ⟨fun _ => (now, now), fun _ => [(f, now, now)], [], [], []⟩
  have hr : At now r := ⟨fun _ => rfl, fun _ x hx => by rw [List.mem_singleton.1 hx]⟩
  let s : Progress := ⟨⟨[f], [(b.host, now - minInterval)]⟩, [], files, [], []⟩
  have hlast : b.last s.lastDial = now - minInterval := last_cons b _ []
  have hlate : minInterval ≤ (now, now).1 - b.last s.lastDial := by rw [hlast]; simp
  refine not_offersAll_of_lost hnodup hne s now rfl rfl hlate hr ⟨rfl, rfl⟩
    (fun g hg => absurd hg List.not_mem_nil) ?_ ?_
  · exact fun g hg => List.mem_singleton.1 hg ▸ hf
  · have hvisit := visit_late hsite hlate
    have hpass : (b.pass s r).offered = (b.walk r files ⟨[f], s.lastDial⟩).2.1 := rfl
    rw [hpass]
    refine (walk_at hr files _).2 fun g _ => ?_
    have haside : (b.aside ⟨[f], s.lastDial⟩ (f, now, now)).lastDial =
        (b.host, now) :: s.lastDial := by
      simp [aside, hvisit]
    show now - b.last (b.aside ⟨[f], s.lastDial⟩ (f, now, now)).lastDial < minInterval
    rw [haside, last_cons, sub_self]
    decide

/-- Every file of a directory for the site is offered to it, once there were as many passes as files,
if and only if the site accepts every file but the last one, and no file in an earlier directory or
with the other collector is for the site.  Where there is no such file and the site answers at once,
that is so for each run of passes. -/
theorem all_offered_iff (b : Backlog) {earlier foreign : Path → Prop} {files : List Path}
    (hremote : ∀ f ∈ files, b.Remote f) (hnodup : files.Nodup) :
    (b.OffersAll earlier foreign files ↔ (∀ f ∈ files.dropLast, ¬ b.refuses f) ∧
      (files ≠ [] → (∀ f, earlier f → ¬ b.Goes b.which f) ∧
        ∀ g, foreign g → ¬ b.Goes b.which.other g)) ∧
    ∀ (s : Progress) rounds, s.files = files → s.offered = [] → b.Undisturbed s rounds →
      b.Spaced s.lastDial rounds → files.length ≤ rounds.length →
      (∀ r ∈ rounds, Prompt files r) →
      ((∀ f ∈ files, f ∈ (b.passes rounds s).offered) ↔ ∀ f ∈ files.dropLast, ¬ b.refuses f) := by
  have hprompt : ∀ (s : Progress) rounds, s.files = files → s.offered = [] →
      b.Undisturbed s rounds → b.Spaced s.lastDial rounds → (∀ r ∈ rounds, Prompt files r) →
      (∀ f ∈ files, f ∈ (b.passes rounds s).offered) → ∀ f ∈ files.dropLast, ¬ b.refuses f := by
    rintro s rounds rfl hs h hspaced hlooks hoffered
    exact accepted_of_offered h hspaced hremote hlooks hnodup (by simp [hs]) hoffered
  refine ⟨⟨fun h => ⟨?_, fun hne => ⟨fun f hf hgoes => ?_, fun g hg hgoes => ?_⟩⟩, ?_⟩, ?_⟩
  · have hspaced : b.Spaced [] (evenRounds minInterval files.length) :=
      spaced_evenRounds (by simp [last]) _
    have hnone : ∀ {p : Path → Prop}, ∀ f ∈ ([] : List Path), p f :=
      fun f hf => absurd hf List.not_mem_nil
    have hall := h ⟨⟨[], []⟩, [], files, [], []⟩ _ rfl rfl (within_evenRounds hnone hnone _ _)
      hspaced (by simp [evenRounds])
    refine hprompt ⟨⟨[], []⟩, [], files, [], []⟩ _ rfl rfl (within_evenRounds hnone hnone _ _)
      hspaced (fun r hr => ?_) hall
    obtain ⟨now, hnow⟩ := at_evenRounds _ _ r hr
    exact prompt_of_at hnow files
  · exact not_offersAll_of_earlier hnodup hne hf hgoes h
  · exact not_offersAll_of_foreign hnodup hne hg hgoes h
  · rintro ⟨haccepted, hquiet⟩ s rounds rfl - hwithin hspaced hlen
    cases hs : s.files with
    | nil => exact fun f hf => absurd hf List.not_mem_nil
    | cons f fs =>
      obtain ⟨hearlier, hforeign⟩ := hquiet (by simp [hs])
      rw [← hs]
      exact offered_of_accepted ⟨fun f hf => hearlier f (hwithin.before f hf),
        fun g hg => hforeign g (hwithin.others g hg),
        fun r hr f hf => hearlier f (hwithin.early r hr f hf),
        fun r hr g hg => hforeign g (hwithin.foreign r hr g hg)⟩ hspaced hremote hlen haccepted
  · rintro s rounds rfl hs h hspaced hlen hlooks
    exact ⟨hprompt s rounds rfl hs h hspaced hlooks, offered_of_accepted h hspaced hremote hlen⟩

def file (outbox name : Bytes) : Path := [outbox, ascii "new", name]

def twoFiles : List Path := [file (ascii "a") (ascii "1"), file (ascii "a") (ascii "2")]

/-- Every file goes to the site `h`, which refuses one of them. -/
def sampleBacklog (refused : Path) : Backlog where
  setup := sampleSetup
  which := .outboxes
  routes _ := []
  extra _ := []
  mine _ := []
  advertised _ := []
  content _ := ascii "To: b@axiom@h

"
  host := ascii "h"
  refuses f := f = refused

theorem remote_sample (refused f : Path) : (sampleBacklog refused).Remote f := by
  have hplan : outboxPlan { sampleSetup with domains := clusterDomains } [] []
      (ascii "To: b@axiom@h

") = .dial (ascii "h") (ascii "b@axiom@h") := by decide
  exact fun _ => ⟨_, hplan⟩

/-- The second file is refused, and both are offered. -/
theorem all_offered_iff_last :
    let offered := ((sampleBacklog (file (ascii "a") (ascii "2"))).passes
      (evenRounds minInterval 2) ⟨⟨[], []⟩, [], twoFiles, [], []⟩).offered
    file (ascii "a") (ascii "1") ∈ offered ∧ file (ascii "a") (ascii "2") ∈ offered := by
  have hnone : ∀ f ∈ ([] : List Path), False := fun f hf => absurd hf List.not_mem_nil
  have hall := (all_offered_iff (sampleBacklog (file (ascii "a") (ascii "2")))
    (fun f _ => remote_sample _ f) (by decide : twoFiles.Nodup)).1.2
    ⟨by decide, fun _ => ⟨fun _ h => h.elim, fun _ h => h.elim⟩⟩ ⟨⟨[], []⟩, [], twoFiles, [], []⟩
    (evenRounds minInterval 2) rfl rfl (within_evenRounds hnone hnone _ _)
    (spaced_evenRounds (by decide) _) (by decide)
  exact ⟨hall _ (by decide), hall _ (by decide)⟩

/-- The first file is refused, and offered in both passes.  The file of another outbox behind it is
not offered either, though it is alone there. -/
theorem second_starves :
    (∀ f, (sampleBacklog (file (ascii "a") (ascii "1"))).Remote f) ∧
    (sampleBacklog (file (ascii "a") (ascii "1"))).Spaced [] (evenRounds minInterval 2) ∧
    (∀ r ∈ evenRounds minInterval 2, Prompt twoFiles r) ∧
    ((sampleBacklog (file (ascii "a") (ascii "1"))).passes (evenRounds minInterval 2)
      ⟨⟨[], []⟩, [], twoFiles, [], []⟩).offered =
        [file (ascii "a") (ascii "1"), file (ascii "a") (ascii "1")] ∧
    ((sampleBacklog (file (ascii "a") (ascii "1"))).passes (evenRounds minInterval 2)
      ⟨⟨[], []⟩, [file (ascii "a") (ascii "1")], [file (ascii "b") (ascii "1")], [], []⟩).offered =
        [] := by
  refine ⟨remote_sample _, spaced_evenRounds (by decide) _, fun r hr => ?_, by decide +kernel,
    by decide +kernel⟩
  obtain ⟨now, hnow⟩ := at_evenRounds _ _ r hr
  exact prompt_of_at hnow _

end Backlog

end Fatmama.Collector
