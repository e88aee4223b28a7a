import Mathlib.Logic.Basic

/-! Inversion of a sequence of computations that can fail, and of a value with a default. -/
namespace Support
variable {ε α β : Type} {x : Except ε α} {f : α → Except ε β}

theorem bind_eq_ok_iff {b : β} : x >>= f = .ok b ↔ ∃ a, x = .ok a ∧ f a = .ok b := by
  cases x with
  | error e => simp [bind, Except.bind]
  | ok a => simp [bind, Except.bind]

/-- What the default does not have, a value with it was given. -/
theorem getD_iff_exists {P : α → Prop} {o : Option α} {d : α} (h : ¬ P d) :
    P (o.getD d) ↔ ∃ a, o = some a ∧ P a := by
  cases o with
  | none => simp [h]
  | some a => simp

/-- What the default has, any value that was given must have. -/
theorem getD_iff_forall {P : α → Prop} {o : Option α} {d : α} (h : P d) :
    P (o.getD d) ↔ ∀ a, o = some a → P a := by
  cases o with
  | none => simp [h]
  | some a => simp

end Support
