import OpenFlash.Support.Runs

/-! Steps that lower a measure. A run of such steps is no longer than the measure, and one of
them ends where no step is left. -/
namespace Support
variable {σ α : Type}

/-- No step of the kind `P` is left. -/
def Settled (P : σ → α → Prop) (s : σ) : Prop := ∀ a, ¬ P s a

/-- Steps of the kind `P` keep the invariant and lower the measure. -/
structure Decreases (step : σ → α → σ) (P : σ → α → Prop) (inv : σ → Prop) (measure : σ → ℕ) :
    Prop where
  keeps : ∀ s a, inv s → P s a → inv (step s a)
  lowers : ∀ s a, inv s → P s a → measure (step s a) < measure s

variable {step : σ → α → σ} {P : σ → α → Prop} {inv : σ → Prop} {measure : σ → ℕ}

theorem Decreases.length_le (h : Decreases step P inv measure) {s : σ} (hs : inv s)
    {inputs : List α} (hrun : Along step P s inputs) : inputs.length ≤ measure s := by
  induction inputs generalizing s with
  | nil => exact Nat.zero_le _
  | cons a rest ih =>
    have hlower := h.lowers s a hs hrun.1
    have hrest := ih (h.keeps s a hs hrun.1) hrun.2
    rw [List.length_cons]
    omega

/-- Taking steps as long as there are any ends in a settled state. -/
theorem Decreases.settles (h : Decreases step P inv measure) {s : σ} (hs : inv s) :
    ∃ inputs, Along step P s inputs ∧ Settled P (inputs.foldl step s) := by
  induction hn : measure s using Nat.strongRecOn generalizing s with
  | ind n ih =>
    by_cases hsettled : Settled P s
    · exact ⟨[], trivial, hsettled⟩
    · obtain ⟨a, ha⟩ := not_forall_not.mp hsettled
      have hlower := h.lowers s a hs ha
      rw [hn] at hlower
      obtain ⟨rest, hrest, hend⟩ := ih _ hlower (h.keeps s a hs ha) rfl
      exact ⟨a :: rest, ⟨ha, hrest⟩, hend⟩

end Support
