import Mathlib.Data.List.Basic

/-!
# Runs of a partial step function

A system is a step function `step : σ → ε → Option σ` on states `σ` and events `ε`; `none` says that
the event is not enabled in the state.  `run` executes a list of events, `Along C` says that every
step of a run meets the condition `C` on the state before it and its event, and `run_invariant`
carries an invariant along such a run.  `run_logged` goes back from an entry of a log to the point
of the run where it was made.  `outputs` is what the steps put out, and `outputs_pairwise` relates
each of them to the later ones.
-/

/-- A fallible computation that continues has succeeded first. -/
theorem Except.bind_eq_ok_iff {ε α β : Type} {x : Except ε α} {f : α → Except ε β} {b : β} :
    (x >>= f) = .ok b ↔ ∃ a, x = .ok a ∧ f a = .ok b := by
  cases x <;> simp [bind, Except.bind]

theorem Except.map_eq_ok_iff {ε α β : Type} {x : Except ε α} {f : α → β} {b : β} :
    x.map f = .ok b ↔ ∃ a, x = .ok a ∧ f a = b := by
  cases x <;> simp [Except.map]

namespace Runs

variable {σ ε : Type*} (step : σ → ε → Option σ)

/-- The state after the events, `none` when one of them is not enabled where it comes. -/
def run : σ → List ε → Option σ
  | s, [] => some s
  | s, e :: es => (step s e).bind fun s' => run s' es

/-- Every step of the run of the events from `s` meets the condition `C`. -/
def Along (C : σ → ε → Prop) : σ → List ε → Prop
  | _, [] => True
  | s, e :: es => C s e ∧ (step s e).elim True fun s' => Along C s' es

instance decidableAlong (C : σ → ε → Prop) [∀ s e, Decidable (C s e)] :
    ∀ (s : σ) (es : List ε), Decidable (Along step C s es)
  | _, [] => inferInstanceAs (Decidable True)
  | s, e :: es =>
    letI : Decidable ((step s e).elim True fun s' => Along step C s' es) :=
      match step s e with
      | none => inferInstanceAs (Decidable True)
      | some s' => decidableAlong C s' es
    inferInstanceAs (Decidable (C s e ∧ _))

variable {step} {C : σ → ε → Prop}

@[simp] theorem run_nil (s : σ) : run step s [] = some s := rfl

theorem run_cons_iff {s t : σ} {e : ε} {es : List ε} :
    run step s (e :: es) = some t ↔ ∃ s', step s e = some s' ∧ run step s' es = some t := by
  simp [run, Option.bind_eq_some_iff]

theorem run_append_iff {s t : σ} {es es' : List ε} :
    run step s (es ++ es') = some t ↔ ∃ u, run step s es = some u ∧ run step u es' = some t := by
  induction es generalizing s with
  | nil => simp
  | cons e es ih =>
    simp only [List.cons_append, run_cons_iff, ih]
    constructor
    · rintro ⟨s', hs', u, hu, ht⟩
      exact ⟨u, ⟨s', hs', hu⟩, ht⟩
    · rintro ⟨u, ⟨s', hs', hu⟩, ht⟩
      exact ⟨s', hs', u, hu, ht⟩

theorem run_singleton (s : σ) (e : ε) : run step s [e] = step s e := by
  cases h : step s e <;> simp [run, h]

theorem along_cons_iff {s : σ} {e : ε} {es : List ε} :
    Along step C s (e :: es) ↔ C s e ∧ ∀ s', step s e = some s' → Along step C s' es := by
  simp only [Along]
  cases step s e <;> simp

/-- A condition is met along a run if and only if it is met where any of its events comes. -/
theorem along_iff {s : σ} {es : List ε} : Along step C s es ↔
    ∀ before e after u, es = before ++ e :: after → run step s before = some u → C u e := by
  induction es generalizing s with
  | nil => exact iff_of_true trivial fun before e after u h => absurd h (by simp)
  | cons e es ih =>
    rw [along_cons_iff]
    constructor
    · rintro ⟨he, hrest⟩ before e' after u hsplit hu
      cases before with
      | nil =>
        obtain ⟨rfl, -⟩ := List.cons.inj hsplit
        obtain rfl := Option.some.inj hu
        exact he
      | cons b before =>
        obtain ⟨rfl, htail⟩ := List.cons.inj hsplit
        obtain ⟨s', hs', hu⟩ := run_cons_iff.1 hu
        exact ih.1 (hrest s' hs') before e' after u htail hu
    · intro h
      refine ⟨h [] e es s rfl rfl, fun s' hs' => ih.2 fun before e' after u hsplit hu => ?_⟩
      exact h (e :: before) e' after u (hsplit ▸ rfl) (run_cons_iff.2 ⟨s', hs', hu⟩)

/-- An invariant that every step meeting `C` preserves holds after every run that meets `C`. -/
theorem run_invariant {I : σ → Prop}
    (hI : ∀ s e s', I s → C s e → step s e = some s' → I s') {s t : σ} {es : List ε}
    (hs : I s) (hC : Along step C s es) (hr : run step s es = some t) : I t := by
  induction es generalizing s with
  | nil =>
    obtain rfl := Option.some.inj hr
    exact hs
  | cons e es ih =>
    obtain ⟨s', hse, hr⟩ := run_cons_iff.1 hr
    obtain ⟨hCe, hC⟩ := along_cons_iff.1 hC
    exact ih (hI s e s' hs hCe hse) (hC s' hse) hr

theorem along_of_forall (h : ∀ s e, C s e) (s : σ) (es : List ε) : Along step C s es := by
  induction es generalizing s with
  | nil => trivial
  | cons e es ih => exact along_cons_iff.2 ⟨h s e, fun s' _ => ih s'⟩

/-- An invariant that every step preserves holds after every run. -/
theorem run_preserves {I : σ → Prop} (hI : ∀ s e s', I s → step s e = some s' → I s') {s t : σ}
    {es : List ε} (hs : I s) (hr : run step s es = some t) : I t :=
  run_invariant (fun s e s' hs _ h => hI s e s' hs h) hs
    (along_of_forall (C := fun _ _ => True) (fun _ _ => trivial) s es) hr

/-- Where a condition on a step is just what keeps an invariant, it is met along a run if and only
if the invariant holds in every state of it. -/
theorem along_iff_invariant {I : σ → Prop}
    (hI : ∀ s e s', I s → step s e = some s' → (I s' ↔ C s e)) {s t : σ} {es : List ε}
    (hs : I s) (hr : run step s es = some t) :
    Along step C s es ↔ ∀ es' u, es' <+: es → run step s es' = some u → I u := by
  induction es generalizing s with
  | nil =>
    refine iff_of_true trivial fun es' u hle hu => ?_
    rw [List.prefix_nil.1 hle] at hu
    exact Option.some.inj hu ▸ hs
  | cons e es ih =>
    obtain ⟨s', hse, hrest⟩ := run_cons_iff.1 hr
    rw [along_cons_iff, ← hI s e s' hs hse]
    constructor
    · rintro ⟨hs', halong⟩ es' u hle hu
      cases es' with
      | nil => exact Option.some.inj hu ▸ hs
      | cons e' es' =>
        obtain ⟨rfl, htail⟩ := List.cons_prefix_cons.1 hle
        obtain ⟨v, hv, hstate⟩ := run_cons_iff.1 hu
        obtain rfl := Option.some.inj (hse.symm.trans hv)
        exact (ih hs' hrest).1 (halong _ hse) es' u htail hstate
    · intro h
      have hs' : I s' := h [e] s' (List.prefix_append [e] es) (by rw [run_singleton, hse])
      refine ⟨hs', fun v hv => ?_⟩
      obtain rfl := Option.some.inj (hse.symm.trans hv)
      exact (ih hs' hrest).2 fun es' u hle hu =>
        h (e :: es') u (List.cons_prefix_cons.2 ⟨rfl, hle⟩) (run_cons_iff.2 ⟨_, hse, hu⟩)

/-- What is logged at the end of a run, and comes into the log only where something is so, was so at
some point of the run, or was logged before it. -/
theorem run_logged {α : Type*} {L P : σ → α → Prop}
    (hL : ∀ s e s', step s e = some s' → ∀ x, L s' x → L s x ∨ P s' x) {s t : σ} {es : List ε}
    (hr : run step s es = some t) {x : α} (hx : L t x) :
    L s x ∨ ∃ es' u, es' <+: es ∧ run step s es' = some u ∧ P u x := by
  induction es generalizing s with
  | nil =>
    obtain rfl := Option.some.inj hr
    exact Or.inl hx
  | cons e es ih =>
    obtain ⟨s', hse, hr⟩ := run_cons_iff.1 hr
    rcases ih hr with hs' | ⟨es', u, hprefix, hrun, hP⟩
    · refine (hL s e s' hse x hs').imp_right fun hP => ?_
      exact ⟨[e], s', List.prefix_append [e] es, run_cons_iff.2 ⟨s', hse, run_nil s'⟩, hP⟩
    · exact Or.inr ⟨e :: es', u, List.cons_prefix_cons.2 ⟨rfl, hprefix⟩,
        run_cons_iff.2 ⟨s', hse, hrun⟩, hP⟩

/-! ## What the steps put out -/

section Outputs

variable {α : Type*} (step) (out : ε → σ → Option α)

/-- What the steps put out that the events come to; `out` reads it off the event and the state after
it. -/
def outputs : σ → List ε → List α
  | _, [] => []
  | s, e :: es => (step s e).elim [] fun t => (out e t).toList ++ outputs t es

variable {step out} {R : α → α → Prop} {I : α → σ → Prop}

theorem outputs_cons {s t : σ} {e : ε} (h : step s e = some t) (es : List ε) :
    outputs step out s (e :: es) = (out e t).toList ++ outputs step out t es := by
  rw [outputs, h, Option.elim_some]

/-- What holds at the end of a run, and comes about only with an output, held before it, or there
is such an output. -/
theorem outputs_logged {P : σ → Prop} {Q : α → Prop}
    (hP : ∀ s e t, step s e = some t → P t → P s ∨ ∃ y, out e t = some y ∧ Q y) {s t : σ}
    {es : List ε} (hr : run step s es = some t) (ht : P t) :
    P s ∨ ∃ y ∈ outputs step out s es, Q y := by
  induction es generalizing s with
  | nil =>
    obtain rfl := Option.some.inj hr
    exact Or.inl ht
  | cons e es ih =>
    obtain ⟨u, hstep, hr⟩ := run_cons_iff.1 hr
    rw [outputs_cons hstep]
    rcases ih hr with hu | ⟨y, hy, hQ⟩
    · refine (hP s e u hstep hu).imp_right ?_
      rintro ⟨y, hout, hQ⟩
      exact ⟨y, List.mem_append_left _ (Option.mem_toList.2 hout), hQ⟩
    · exact Or.inr ⟨y, List.mem_append_right _ hy, hQ⟩

/-- What an output leaves behind, and every step keeps, relates it to all outputs that follow. -/
theorem outputs_related {C : ε → Prop}
    (hI : ∀ s e t x, C e → step s e = some t → I x s → I x t ∧ ∀ y, out e t = some y → R x y)
    {s : σ} {es : List ε} (hC : ∀ e ∈ es, C e) {x : α} (hx : I x s) :
    ∀ y ∈ outputs step out s es, R x y := by
  induction es generalizing s with
  | nil => exact fun y hy => absurd hy List.not_mem_nil
  | cons e es ih =>
    obtain ⟨he, hes⟩ := List.forall_mem_cons.1 hC
    intro y hy
    cases hstep : step s e with
    | none => simp [outputs, hstep] at hy
    | some t =>
      obtain ⟨ht, hout⟩ := hI s e t x he hstep hx
      rw [outputs_cons hstep] at hy
      rcases List.mem_append.1 hy with hy | hy
      · exact hout y (Option.mem_toList.1 hy)
      · exact ih hes ht y hy

theorem outputs_pairwise {C : ε → Prop}
    (hmade : ∀ s e t x, C e → step s e = some t → out e t = some x → I x t)
    (hI : ∀ s e t x, C e → step s e = some t → I x s → I x t ∧ ∀ y, out e t = some y → R x y)
    {s : σ} {es : List ε} (hC : ∀ e ∈ es, C e) : (outputs step out s es).Pairwise R := by
  induction es generalizing s with
  | nil => exact List.Pairwise.nil
  | cons e es ih =>
    obtain ⟨he, hes⟩ := List.forall_mem_cons.1 hC
    cases hstep : step s e with
    | none => simp [outputs, hstep]
    | some t =>
      rw [outputs_cons hstep]
      cases hout : out e t with
      | none => exact ih hes
      | some x =>
        have hx := hmade s e t x he hstep hout
        exact List.pairwise_cons.2 ⟨outputs_related hI hes hx, ih hes⟩

end Outputs

end Runs
