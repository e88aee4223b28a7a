import OpenFlash.Support.Runs

/-! Refinement through observable events. A step of the concrete machine either shows an event
that the abstract machine allows, or shows none and keeps the abstract state. -/
namespace Support
variable {σ τ α β ω : Type}

/-- The events that a run shows, in order. -/
def observed (step : σ → α → σ) (event : σ → α → Option β) : σ → List α → List β
  | _, [] => []
  | s, a :: rest => (event s a).toList ++ observed step event (step s a) rest

/-- A chain of allowed events. -/
inductive Path (allows : τ → β → τ → Prop) : τ → List β → τ → Prop
  | nil (t : τ) : Path allows t [] t
  | cons {t u v : τ} {e : β} {rest : List β} :
      allows t e u → Path allows u rest v → Path allows t (e :: rest) v

/-- What every event of the chain keeps is kept by the chain. -/
theorem Path.keeps {allows : τ → β → τ → Prop} {f : τ → ω} {t v : τ} {events : List β}
    (h : Path allows t events v)
    (hkeep : ∀ e ∈ events, ∀ u u', allows u e u' → f u' = f u) : f v = f t := by
  induction h with
  | nil t => rfl
  | cons hstep _ ih =>
    rw [ih fun e he => hkeep e (List.mem_cons_of_mem _ he)]
    exact hkeep _ List.mem_cons_self _ _ hstep

/-- The abstract side of one step. -/
def Matches (allows : τ → β → τ → Prop) (t : τ) : Option β → τ → Prop
  | none, u => u = t
  | some e, u => allows t e u

/-- Steps that match one by one make a run whose events are a chain of the abstract machine. -/
theorem Along.path {step : σ → α → σ} {P : σ → α → Prop} {event : σ → α → Option β}
    {allows : τ → β → τ → Prop} {I : σ → Prop} {abs : σ → τ}
    (hinv : ∀ s a, I s → P s a → I (step s a))
    (hstep : ∀ s a, I s → P s a → Matches allows (abs s) (event s a) (abs (step s a)))
    {s : σ} (hs : I s) {inputs : List α} (h : Along step P s inputs) :
    Path allows (abs s) (observed step event s inputs) (abs (inputs.foldl step s)) := by
  induction inputs generalizing s with
  | nil => exact .nil _
  | cons a rest ih =>
    have hmatch := hstep s a hs h.1
    have hrest := ih (hinv s a hs h.1) h.2
    rw [observed, List.foldl_cons]
    cases hevent : event s a with
    | none =>
      rw [hevent] at hmatch
      rw [hmatch] at hrest
      exact hrest
    | some e =>
      rw [hevent] at hmatch
      exact .cons hmatch hrest

end Support
