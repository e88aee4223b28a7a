import Mathlib.Data.List.Basic

/-! Runs of deterministic state machines: an abstract machine that allows every step
allows every run, and machines that agree step by step agree on every run. -/
namespace Support
variable {σ τ α ω : Type}

/-- The labelled outputs of a run and the state it ends in. -/
def runOutputs (step : σ → α → ω × σ) : σ → List α → List (α × ω) × σ
  | s, [] => ([], s)
  | s, a :: rest =>
      let tail := runOutputs step (step s a).2 rest
      ((a, (step s a).1) :: tail.1, tail.2)

/-- The entry that was added last to a log changes. -/
theorem modify_append_length (log : List α) (x : α) (f : α → α) :
    (log ++ [x]).modify log.length f = log ++ [f x] := by
  induction log with
  | nil => rfl
  | cons y log ih => simp [ih]

/-- What every step keeps holds at the end of a run. -/
theorem runOutputs_invariant {step : σ → α → ω × σ} {inv : σ → Prop}
    (hinv : ∀ s a, inv s → inv (step s a).2) (inputs : List α) {s : σ} (hs : inv s) :
    inv (runOutputs step s inputs).2 := by
  induction inputs generalizing s with
  | nil => exact hs
  | cons a rest ih => exact ih (hinv s a hs)

/-- A chain of allowed steps through the given labels. -/
inductive Trace (allows : τ → α → ω → τ → Prop) : τ → List (α × ω) → τ → Prop
  | nil (t : τ) : Trace allows t [] t
  | cons {t u v : τ} {a : α} {o : ω} {rest : List (α × ω)} :
      allows t a o u → Trace allows u rest v → Trace allows t ((a, o) :: rest) v

/-- Forward simulation through an abstraction function, under a concrete invariant. -/
theorem runOutputs_trace {step : σ → α → ω × σ} {allows : τ → α → ω → τ → Prop}
    {inv : σ → Prop} {abs : σ → τ} (hinv : ∀ s a, inv s → inv (step s a).2)
    (hstep : ∀ s a, inv s → allows (abs s) a (step s a).1 (abs (step s a).2))
    (inputs : List α) {s : σ} (hs : inv s) :
    Trace allows (abs s) (runOutputs step s inputs).1 (abs (runOutputs step s inputs).2) := by
  induction inputs generalizing s with
  | nil => exact .nil _
  | cons a rest ih => exact .cons (hstep s a hs) (ih (hinv s a hs))

/-- Two machines that answer alike and stay related on every admissible input answer
alike on every admissible run. -/
theorem runOutputs_lockstep {step : σ → α → ω × σ} {step' : τ → α → ω × τ}
    {related : σ → τ → Prop} {admissible : α → Prop}
    (hstep : ∀ s t a, related s t → admissible a →
      (step s a).1 = (step' t a).1 ∧ related (step s a).2 (step' t a).2)
    (inputs : List α) (hin : ∀ a ∈ inputs, admissible a) {s : σ} {t : τ} (h : related s t) :
    (runOutputs step s inputs).1 = (runOutputs step' t inputs).1 := by
  induction inputs generalizing s t with
  | nil => rfl
  | cons a rest ih =>
    obtain ⟨hout, hnext⟩ := hstep s t a h (hin a List.mem_cons_self)
    have htail := ih (fun b hb => hin b (List.mem_cons_of_mem a hb)) hnext
    simp only [runOutputs, hout, htail]

/-- The two machines are still related at the end. -/
theorem runOutputs_related {step : σ → α → ω × σ} {step' : τ → α → ω × τ}
    {related : σ → τ → Prop} {admissible : α → Prop}
    (hstep : ∀ s t a, related s t → admissible a → related (step s a).2 (step' t a).2)
    (inputs : List α) (hin : ∀ a ∈ inputs, admissible a) {s : σ} {t : τ} (h : related s t) :
    related (runOutputs step s inputs).2 (runOutputs step' t inputs).2 := by
  induction inputs generalizing s t with
  | nil => exact h
  | cons a rest ih =>
    have hnext := hstep s t a h (hin a List.mem_cons_self)
    exact ih (fun b hb => hin b (List.mem_cons_of_mem a hb)) hnext

/-- Every step of the run meets a condition on the state it starts from and its input. -/
def Along (step : σ → α → σ) (P : σ → α → Prop) : σ → List α → Prop
  | _, [] => True
  | s, a :: rest => P s a ∧ Along step P (step s a) rest

instance decidableAlong (step : σ → α → σ) (P : σ → α → Prop) [∀ s a, Decidable (P s a)] :
    (s : σ) → (inputs : List α) → Decidable (Along step P s inputs)
  | _, [] => inferInstanceAs (Decidable True)
  | s, a :: rest =>
      have := decidableAlong step P (step s a) rest
      inferInstanceAs (Decidable (P s a ∧ Along step P (step s a) rest))

theorem along_of_forall {P : σ → α → Prop} (h : ∀ s a, P s a) (step : σ → α → σ) (s : σ)
    (inputs : List α) : Along step P s inputs := by
  induction inputs generalizing s with
  | nil => trivial
  | cons a rest ih => exact ⟨h s a, ih (step s a)⟩

theorem Along.imp {step : σ → α → σ} {P Q : σ → α → Prop} (himp : ∀ s a, P s a → Q s a) {s : σ}
    {inputs : List α} (h : Along step P s inputs) : Along step Q s inputs := by
  induction inputs generalizing s with
  | nil => trivial
  | cons a rest ih => exact ⟨himp s a h.1, ih h.2⟩

theorem Along.and {step : σ → α → σ} {P Q : σ → α → Prop} {s : σ} {inputs : List α}
    (h : Along step P s inputs) (h' : Along step Q s inputs) :
    Along step (fun s a => P s a ∧ Q s a) s inputs := by
  induction inputs generalizing s with
  | nil => trivial
  | cons a rest ih => exact ⟨⟨h.1, h'.1⟩, ih h.2 h'.2⟩

/-- What every step under the condition keeps holds in every state of a run under it. -/
theorem Along.invariant {step : σ → α → σ} {P : σ → α → Prop} {inv : σ → Prop}
    (hstep : ∀ s a, inv s → P s a → inv (step s a)) {s : σ} (hs : inv s) {inputs : List α}
    (h : Along step P s inputs) (n : ℕ) : inv ((inputs.take n).foldl step s) := by
  induction inputs generalizing s n with
  | nil => simpa using hs
  | cons a rest ih =>
    cases n with
    | zero => exact hs
    | succ n => exact ih (hstep s a hs h.1) h.2 n

/-- What the condition implies in states with the invariant holds along the run as well. -/
theorem Along.imp_of_invariant {step : σ → α → σ} {P R : σ → α → Prop} {inv : σ → Prop}
    (hstep : ∀ s a, inv s → P s a → inv (step s a)) (himp : ∀ s a, inv s → P s a → R s a)
    {s : σ} (hs : inv s) {inputs : List α} (h : Along step P s inputs) :
    Along step R s inputs := by
  induction inputs generalizing s with
  | nil => trivial
  | cons a rest ih => exact ⟨himp s a hs h.1, ih (hstep s a hs h.1) h.2⟩

/-- When each admissible step keeps `Q` exactly under the condition `P`, then `Q` holds in
every state of an admissible run exactly when `P` holds along it. -/
theorem forall_take_iff_along {step : σ → α → σ} {A P : σ → α → Prop} {inv Q : σ → Prop}
    (hinv : ∀ s a, inv s → A s a → inv (step s a))
    (hstep : ∀ s a, inv s → A s a → Q s → (Q (step s a) ↔ P s a)) {s : σ} (hs : inv s)
    (hq : Q s) {inputs : List α} (ha : Along step A s inputs) :
    (∀ n, Q ((inputs.take n).foldl step s)) ↔ Along step P s inputs := by
  induction inputs generalizing s with
  | nil => simp [Along, hq]
  | cons a rest ih =>
    have hnext := hstep s a hs ha.1 hq
    constructor
    · intro h
      have hq' : Q (step s a) := by simpa using h 1
      refine ⟨hnext.mp hq', (ih (hinv s a hs ha.1) hq' ha.2).mp fun n => ?_⟩
      simpa using h (n + 1)
    · rintro ⟨hp, hrest⟩ n
      have hq' : Q (step s a) := hnext.mpr hp
      cases n with
      | zero => exact hq
      | succ n => exact (ih (hinv s a hs ha.1) hq' ha.2).mpr hrest n

end Support
