import Mathlib.Logic.Basic
import Mathlib.Data.Nat.Notation

/-!
# Loops

A loop is a step function `step : σ → σ ⊕ ρ` on states: it goes on with another state or ends with a
result.  `Returns step s r` says that the loop from `s` ends with `r` after finitely many steps; a
loop that never ends returns nothing.  `exists_returns` is the rule for termination, and
`returns_induction` the one for what a loop returns.
-/

namespace Loops

variable {σ ρ : Type*} (step : σ → σ ⊕ ρ)

/-- The result if the loop ends in that many steps. -/
def runFor : ℕ → σ → Option ρ
  | 0, _ => none
  | n + 1, s =>
    match step s with
    | .inl s' => runFor n s'
    | .inr r => some r

def Returns (s : σ) (r : ρ) : Prop := ∃ n, runFor step n s = some r

variable {step}

theorem returns_of_done {s : σ} {r : ρ} (h : step s = .inr r) (r' : ρ) :
    Returns step s r' ↔ r' = r := by
  constructor
  · rintro ⟨n, hn⟩
    cases n with
    | zero => cases hn
    | succ n =>
      rw [runFor, h] at hn
      exact (Option.some.inj hn).symm
  · rintro rfl
    exact ⟨1, by rw [runFor, h]⟩

theorem returns_of_step {s s' : σ} (h : step s = .inl s') (r : ρ) :
    Returns step s r ↔ Returns step s' r := by
  constructor
  · rintro ⟨n, hn⟩
    cases n with
    | zero => cases hn
    | succ n =>
      rw [runFor, h] at hn
      exact ⟨n, hn⟩
  · rintro ⟨n, hn⟩
    refine ⟨n + 1, ?_⟩
    rw [runFor, h]
    exact hn

/-- A loop ends if a measure of its state decreases with every step. -/
theorem exists_returns (μ : σ → ℕ) (hμ : ∀ s s', step s = .inl s' → μ s' < μ s) (s : σ) :
    ∃ r, Returns step s r := by
  induction hn : μ s using Nat.strongRecOn generalizing s with
  | ind n ih =>
    cases h : step s with
    | inl s' =>
      obtain ⟨r, hr⟩ := ih (μ s') (hn ▸ hμ s s' h) s' rfl
      exact ⟨r, (returns_of_step h r).2 hr⟩
    | inr r => exact ⟨r, (returns_of_done h r).2 rfl⟩

/-- What every state of a loop keeps, and gives at the end, is so of the result. -/
theorem returns_induction {I : σ → Prop} {P : ρ → Prop}
    (hstep : ∀ s s', I s → step s = .inl s' → I s') (hdone : ∀ s r, I s → step s = .inr r → P r)
    {s : σ} {r : ρ} (hs : I s) (h : Returns step s r) : P r := by
  obtain ⟨n, hn⟩ := h
  induction n generalizing s with
  | zero => cases hn
  | succ n ih =>
    rw [runFor] at hn
    split at hn
    next s' hs' => exact ih (hstep s s' hs hs') hn
    next r' hr' =>
      obtain rfl := Option.some.inj hn
      exact hdone s r' hs hr'

theorem returns_unique {s : σ} {r r' : ρ} (h : Returns step s r) (h' : Returns step s r') : r' = r :=
  returns_induction (I := fun s => Returns step s r) (P := fun r' => r' = r)
    (fun _ _ hs hstep => (returns_of_step hstep r).1 hs)
    (fun _ _ hs hdone => ((returns_of_done hdone r).1 hs).symm) h h'

end Loops
