import Mathlib.Data.List.Basic

/-!
# Passes over a list

`sweep body s l` takes the elements of `l` in turn from the state `s`, as a loop that catches no
error: it returns the elements that it has come to, and the state at the end or the error that has
ended it.  `sweep_ok_iff` says when a pass goes through, `sweep_append_ok_iff` cuts one at an
element, and `sweep_preserves` carries an invariant.  `pushing f` is the body of a loop that pushes
what `f` gives.
-/

namespace Sweeps

variable {σ α β ε : Type*}

def sweep (body : σ → α → Except ε σ) : σ → List α → List α × Except ε σ
  | s, [] => ([], .ok s)
  | s, a :: l =>
    match body s a with
    | .error e => ([a], .error e)
    | .ok s' => (a :: (sweep body s' l).1, (sweep body s' l).2)

variable {body : σ → α → Except ε σ} {s t : σ}

theorem sweep_nil_ok_iff : (sweep body s []).2 = .ok t ↔ s = t := by
  rw [sweep, Except.ok.injEq]

theorem sweep_cons_ok_iff {a : α} {l : List α} :
    (sweep body s (a :: l)).2 = .ok t ↔ ∃ s', body s a = .ok s' ∧ (sweep body s' l).2 = .ok t := by
  rw [sweep]
  cases body s a with
  | error e => simp
  | ok s' => simp

/-- A pass that ends without an error has come to every element. -/
theorem sweep_fst_of_ok {l : List α} (h : (sweep body s l).2 = .ok t) : (sweep body s l).1 = l := by
  induction l generalizing s with
  | nil => rfl
  | cons a l ih =>
    obtain ⟨s', hs', hl⟩ := sweep_cons_ok_iff.1 h
    rw [sweep, hs']
    exact congrArg (a :: ·) (ih hl)

/-- A pass goes through exactly if every element does, when that depends on the element alone. -/
theorem sweep_ok_iff {Passes : α → Prop} (h : ∀ s a, (∃ s', body s a = .ok s') ↔ Passes a) (s : σ)
    (l : List α) : (∃ t, (sweep body s l).2 = .ok t) ↔ ∀ a ∈ l, Passes a := by
  induction l generalizing s with
  | nil => simp [sweep]
  | cons a l ih =>
    simp only [sweep_cons_ok_iff, List.forall_mem_cons]
    constructor
    · rintro ⟨t, s', hs', ht⟩
      exact ⟨(h s a).1 ⟨s', hs'⟩, (ih s').1 ⟨t, ht⟩⟩
    · rintro ⟨ha, hl⟩
      obtain ⟨s', hs'⟩ := (h s a).2 ha
      obtain ⟨t, ht⟩ := (ih s').2 hl
      exact ⟨t, s', hs', ht⟩

/-- A pass through two lists is a pass through one and then the other. -/
theorem sweep_append_ok_iff {l l' : List α} :
    (sweep body s (l ++ l')).2 = .ok t ↔
      ∃ s', (sweep body s l).2 = .ok s' ∧ (sweep body s' l').2 = .ok t := by
  induction l generalizing s with
  | nil => simp [sweep]
  | cons a l ih =>
    rw [List.cons_append, sweep_cons_ok_iff]
    simp only [ih, sweep_cons_ok_iff]
    constructor
    · rintro ⟨s₁, ha, s₂, hl, hl'⟩
      exact ⟨s₂, ⟨s₁, ha, hl⟩, hl'⟩
    · rintro ⟨s₂, ⟨s₁, ha, hl⟩, hl'⟩
      exact ⟨s₁, ha, s₂, hl, hl'⟩

/-- What every element of a pass keeps holds at its end. -/
theorem sweep_preserves {I : σ → Prop} {l : List α}
    (hI : ∀ a ∈ l, ∀ s s', I s → body s a = .ok s' → I s') (hs : I s)
    (h : (sweep body s l).2 = .ok t) : I t := by
  induction l generalizing s with
  | nil =>
    obtain rfl := sweep_nil_ok_iff.1 h
    exact hs
  | cons a l ih =>
    obtain ⟨s', ha, hl⟩ := sweep_cons_ok_iff.1 h
    exact ih (fun b hb => hI b (List.mem_cons_of_mem a hb)) (hI a List.mem_cons_self s s' hs ha) hl

/-! ## Loops that push -/

def pushing (f : α → Except ε (List β)) (s : List β) (a : α) : Except ε (List β) :=
  (f a).map (s ++ ·)

variable {f : α → Except ε (List β)}

theorem pushing_ok_iff (s : List β) (a : α) :
    (∃ s', pushing f s a = .ok s') ↔ ∃ bs, f a = .ok bs := by
  cases h : f a <;> simp [pushing, h, Except.map]

theorem sweep_pushing_ok_iff (s : List β) (l : List α) :
    (∃ t, (sweep (pushing f) s l).2 = .ok t) ↔ ∀ a ∈ l, ∃ bs, f a = .ok bs :=
  sweep_ok_iff pushing_ok_iff s l

theorem sweep_pushing {out : α → List β} {l : List α} (h : ∀ a ∈ l, f a = .ok (out a))
    (s : List β) :
    (sweep (pushing f) s l).2 = .ok (s ++ l.flatMap out) := by
  induction l generalizing s with
  | nil => rw [List.flatMap_nil, List.append_nil, sweep]
  | cons a l ih =>
    rw [List.forall_mem_cons] at h
    refine sweep_cons_ok_iff.2 ⟨s ++ out a, ?_, ?_⟩
    · rw [pushing, h.1, Except.map]
    · rw [ih h.2, List.flatMap_cons, List.append_assoc]

end Sweeps
