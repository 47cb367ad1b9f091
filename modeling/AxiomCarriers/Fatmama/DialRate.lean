import AxiomCarriers.Fatmama.Collector

/-!
# How often a site is dialled

Both collectors look up a host in `_xsite_last` before they dial it, and stamp it there.  They wait
in the middle of their passes and go on at any time, but neither waits between the look and the
stamp, so that the two are one step (`route`).

What a dial leaves behind is a stamp that is not older than its own, which every step keeps
(`stamped_step`).  With it, two dials of a host are the interval apart in every run (`dials_apart`).
-/

namespace Fatmama.Collector

open Bytes Runs

/-- The host that a step has come to dial, and the time that is stamped for it. -/
def started (e : Event) (t : State) : Option (Bytes × ℤ) :=
  match e with
  | .route w _ =>
    match (t.loops w).stage with
    | .dial _ _ host _ => (Table.get t.lastDial host).map fun stamp => (host, stamp)
    | _ => none
  | _ => none

/-- The dials of a run. -/
def dials (c : Setup) (s : State) (es : List Event) : List (Bytes × ℤ) :=
  outputs (step c) started s es

/-- The process goes on, and its clock does not go back between the look and the stamp. -/
def Forward : Event → Prop
  | .route _ env => env.now ≤ env.stamped
  | .crash => False
  | _ => True

/-- The host of the dial has its stamp, or a later one. -/
def Stamped (x : Bytes × ℤ) (s : State) : Prop :=
  ∃ stamp, Table.get s.lastDial x.1 = some stamp ∧ x.2 ≤ stamp

variable {c : Setup} {s t : State} {w : Which}

@[simp] theorem stage_setStage (s : State) (w : Which) (stage : Stage) :
    ((s.setStage w stage).loops w).stage = stage := by
  simp [State.setStage, State.setLoop]

theorem started_dial (env : Env) {f : Path} {raw host rcpt : Bytes} {stamp : ℤ} :
    started (.route w env) ({ t with
        lastDial := Table.put s.lastDial host stamp }.setStage w (.dial f raw host rcpt)) =
      some (host, stamp) := by
  simp [started, State.setStage, State.setLoop]

theorem lastDial_write (s : State) (w : Which) (name : Bytes) (f : Path) (raw : Bytes) (dest : Path)
    (how : Writing) : (write c s w name f raw dest how).lastDial = s.lastDial := by
  cases how <;> rfl

theorem lastDial_rename (s : State) (w : Which) (f dest : Path) (name : Bytes) :
    (rename c s w f dest name).lastDial = s.lastDial := by
  unfold rename
  split <;> rfl

theorem lastDial_unlink (s : State) (w : Which) (f : Path) (caught ok : Bool) :
    (unlink s w f caught ok).lastDial = s.lastDial := by
  unfold unlink
  split_ifs <;> rfl

/-- A decision stamps the host that it comes to dial, where the stamp before is old enough, and
leaves the stamps otherwise. -/
theorem route_stamps (s : State) (w : Which) (env : Env) (f : Path) (raw : Bytes) :
    ((route c s w env f raw).lastDial = s.lastDial ∧
      started (.route w env) (route c s w env f raw) = none) ∨
    ∃ host, minInterval ≤ env.now - (Table.get s.lastDial host).getD 0 ∧
      (route c s w env f raw).lastDial = Table.put s.lastDial host env.stamped ∧
      started (.route w env) (route c s w env f raw) = some (host, env.stamped) := by
  unfold route
  cases plan c s.routes env w f raw with
  | keep => exact Or.inl ⟨rfl, by simp [started]⟩
  | deliver dest => exact Or.inl ⟨rfl, by simp [started]⟩
  | dial host rcpt =>
    dsimp only
    split_ifs with hlast
    · exact Or.inl ⟨rfl, by simp [started]⟩
    · exact Or.inr ⟨host, not_lt.1 hlast, rfl, started_dial env⟩

theorem step_stamps {e : Event} (he : Forward e) (h : step c s e = some t) :
    (t.lastDial = s.lastDial ∧ started e t = none) ∨
    ∃ w env host, e = .route w env ∧ minInterval ≤ env.now - (Table.get s.lastDial host).getD 0 ∧
      t.lastDial = Table.put s.lastDial host env.stamped ∧
      started e t = some (host, env.stamped) := by
  cases step_spec h with
  | route hstage env =>
    refine (route_stamps s _ env _ _).imp_right ?_
    rintro ⟨host, hstamps⟩
    exact ⟨_, env, host, rfl, hstamps⟩
  | write hstage hfresh how => exact Or.inl ⟨lastDial_write s _ _ _ _ _ how, rfl⟩
  | rename hstage => exact Or.inl ⟨lastDial_rename s _ _ _ _, rfl⟩
  | unlink hstage ok => exact Or.inl ⟨lastDial_unlink s _ _ _ ok, rfl⟩
  | giveUp hor => rcases hor with rfl | rfl <;> exact Or.inl ⟨rfl, rfl⟩
  | crash => exact he.elim
  | _ => exact Or.inl ⟨rfl, rfl⟩

section

variable {f : Path} {raw host rcpt : Bytes}

/-- A collector that is at a dial was there, or it is the one that moves, to the dial. -/
theorem dial_setLoop {w' : Which} {l : Loop}
    (ht : ((s.setLoop w' l).loops w).stage = .dial f raw host rcpt) :
    (s.loops w).stage = .dial f raw host rcpt ∨ l.stage = .dial f raw host rcpt := by
  by_cases hw : w = w'
  · subst hw
    simp only [State.setLoop, Function.update_self] at ht
    exact Or.inr ht
  · simp only [State.setLoop, Function.update_of_ne hw] at ht
    exact Or.inl ht

/-- A step of one collector that does not end at a dial has brought none to one. -/
theorem dial_before {w' : Which} {l : Loop} (hl : l.stage ≠ .dial f raw host rcpt)
    (ht : ((s.setLoop w' l).loops w).stage = .dial f raw host rcpt) :
    (s.loops w).stage = .dial f raw host rcpt := (dial_setLoop ht).resolve_right hl

theorem dial_of_route {w' : Which} {env : Env} {g : Path} {content : Bytes}
    (ht : ((route c s w' env g content).loops w).stage = .dial f raw host rcpt) :
    (s.loops w).stage = .dial f raw host rcpt ∨
      ∃ y, started (.route w' env) (route c s w' env g content) = some y ∧ y.1 = host := by
  unfold route at ht ⊢
  cases hplan : plan c s.routes env w' g content with
  | keep =>
    rw [hplan] at ht
    exact Or.inl (dial_before (by simp) ht)
  | deliver dest =>
    rw [hplan] at ht
    exact Or.inl (dial_before (by simp) ht)
  | dial site address =>
    simp only [hplan] at ht
    dsimp only
    split_ifs at ht ⊢
    · exact Or.inl (dial_before (by simp) ht)
    · refine (dial_setLoop ht).imp_right fun hstage => ?_
      obtain ⟨-, -, rfl, -⟩ := Stage.dial.inj hstage
      exact ⟨(site, env.stamped), started_dial env, rfl⟩

/-- Nothing but a decision brings a collector to a dial. -/
theorem dial_of_step {e : Event} (h : step c s e = some t)
    (ht : (t.loops w).stage = .dial f raw host rcpt) :
    (s.loops w).stage = .dial f raw host rcpt ∨ ∃ y, started e t = some y ∧ y.1 = host := by
  cases step_spec h with
  | put | setRoutes | remove => exact Or.inl ht
  | list | read | skip | dialed | giveUp | fail => exact Or.inl (dial_before (by simp) ht)
  | route hstage env => exact dial_of_route ht
  | write hstage hfresh how =>
    cases how <;> exact Or.inl (dial_before (by simp) ht)
  | rename hstage =>
    unfold rename at ht
    split at ht <;> exact Or.inl (dial_before (by simp) ht)
  | unlink hstage ok =>
    unfold unlink at ht
    split_ifs at ht <;> exact Or.inl (dial_before (by simp) ht)
  | crash => cases ht

end

/-- A dial leaves its stamp behind, a later one comes the interval after it. -/
theorem stamped_step {e : Event} (he : Forward e) (h : step c s e = some t) {x : Bytes × ℤ}
    (hx : Stamped x s) :
    Stamped x t ∧ ∀ y, started e t = some y → x.1 = y.1 → x.2 + minInterval ≤ y.2 := by
  obtain ⟨stamp, hget, hle⟩ := hx
  rcases step_stamps he h with ⟨hsame, hnone⟩ | ⟨w, env, host, rfl, hlate, hput, hsome⟩
  · exact ⟨⟨stamp, hsame ▸ hget, hle⟩, fun y hy => by rw [hnone] at hy; cases hy⟩
  · have hclock : env.now ≤ env.stamped := he
    have hinterval : 0 < minInterval := by decide
    by_cases hhost : host = x.1
    · rw [hhost, hget, Option.getD_some] at hlate
      refine ⟨⟨env.stamped, by rw [hput, hhost, Table.get_put_self], by omega⟩, fun y hy _ => ?_⟩
      rw [hsome] at hy
      obtain rfl := Option.some.inj hy
      change x.2 + minInterval ≤ env.stamped
      omega
    · refine ⟨⟨stamp, by rwa [hput, Table.get_put_of_ne hhost], hle⟩, fun y hy hxy => ?_⟩
      rw [hsome] at hy
      obtain rfl := Option.some.inj hy
      exact absurd hxy.symm hhost

theorem stamped_of_started {e : Event} (he : Forward e) (h : step c s e = some t) {x : Bytes × ℤ}
    (hx : started e t = some x) : Stamped x t := by
  rcases step_stamps he h with ⟨-, hnone⟩ | ⟨w, env, host, rfl, -, hput, hsome⟩
  · rw [hnone] at hx
    cases hx
  · rw [hsome] at hx
    obtain rfl := Option.some.inj hx
    exact ⟨env.stamped, by rw [hput, Table.get_put_self], le_rfl⟩

/-- In every run of the server's process, whatever the two collectors find, in whatever order they
go on and however the sites answer: two dials of a host are stamped at least
`CROSS_SITE_MIN_INTERVAL_S` apart, and a collector that is at a dial has started it. -/
theorem dials_apart (hs : ∀ w, (s.loops w).stage = .next) {es : List Event}
    (hes : ∀ e ∈ es, Forward e) (h : run (step c) s es = some t) :
    ((dials c s es).Pairwise fun x y => x.1 = y.1 → x.2 + minInterval ≤ y.2) ∧
    ∀ w f raw host rcpt, (t.loops w).stage = .dial f raw host rcpt →
      ∃ x ∈ dials c s es, x.1 = host := by
  refine ⟨?_, fun w f raw host rcpt ht => ?_⟩
  · exact outputs_pairwise (fun _ _ _ _ he h hx => stamped_of_started he h hx)
      (fun _ _ _ _ he h hx => stamped_step he h hx) hes
  · have hlogged : (s.loops w).stage = .dial f raw host rcpt ∨ ∃ x ∈ dials c s es, x.1 = host :=
      outputs_logged (P := fun s => (s.loops w).stage = .dial f raw host rcpt)
        (fun _ _ _ hstep => dial_of_step hstep) h ht
    exact hlogged.resolve_left fun hdial => by rw [hs w] at hdial; cases hdial

def siteSetup : Setup := ⟨asciiStr, [ascii "axiom"], [[ascii "outbox"]], some [ascii "pickup"]⟩

/-- Each collector finds a file for the site `h`.  While the first one waits for the site, the other
one comes to its file too early, and then again. -/
def siteEvents : List Event :=
  let outbox := [ascii "outbox", ascii "new"]
  let pickup := [ascii "pickup", ascii "h", ascii "new"]
  [.put outbox (ascii "1") (ascii "To: b@axiom@h\r\n\r\n"),
    .put pickup (ascii "2") (ascii "To: b@axiom\r\n\r\n"),
    .list .outboxes [outbox ++ [ascii "1"]], .read .outboxes,
    .route .outboxes ⟨2000000, 2000001, [], []⟩,
    .list .pickup [pickup ++ [ascii "2"]], .read .pickup,
    .route .pickup ⟨4000000, 4000000, [], []⟩,
    .list .pickup [pickup ++ [ascii "2"]], .read .pickup,
    .route .pickup ⟨4000001, 4000001, [], []⟩]

theorem dials_apart_two :
    dials siteSetup (start []) siteEvents = [(ascii "h", 2000001), (ascii "h", 4000001)] ∧
    (dials siteSetup (start []) siteEvents).Pairwise
      fun x y => x.1 = y.1 → x.2 + minInterval ≤ y.2 := by
  have hforward : ∀ e ∈ siteEvents, Forward e := by
    simp [siteEvents, Forward]
  have hrun : (run (step siteSetup) (start []) siteEvents).isSome := by decide +kernel
  obtain ⟨t, ht⟩ := Option.isSome_iff_exists.1 hrun
  exact ⟨by decide +kernel, (dials_apart (fun _ => rfl) hforward ht).1⟩

end Fatmama.Collector
