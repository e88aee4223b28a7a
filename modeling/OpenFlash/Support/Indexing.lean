import Mathlib.Algebra.Order.Ring.Int
import Mathlib.Data.List.GetD
import Mathlib.Logic.Function.Basic

/-! Subscripts of a sequence by any integer: a negative one counts from the end, and one
outside the sequence is an error. -/
namespace Support
variable {α : Type}

/-- The position that a subscript of a sequence of `n` items means. -/
def position? (n : ℕ) (i : ℤ) : Option ℕ :=
  if 0 ≤ i then if i < n then some i.toNat else none
  else if -n ≤ i then some (i + n).toNat else none

/-- `xs[i]`. -/
def getItem? (xs : List α) (i : ℤ) : Option α := (position? xs.length i).bind (xs[·]?)

/-- `xs[i] = a`. -/
def setItem? (xs : List α) (i : ℤ) (a : α) : Option (List α) :=
  (position? xs.length i).map (xs.set · a)

theorem position?_natCast {n i : ℕ} (h : i < n) : position? n i = some i := by
  rw [position?, if_pos (Int.natCast_nonneg i), if_pos (Int.ofNat_lt.mpr h), Int.toNat_natCast]

theorem getItem?_natCast {xs : List α} {i : ℕ} (h : i < xs.length) (d : α) :
    getItem? xs i = some (xs.getD i d) := by
  rw [getItem?, position?_natCast h, Option.bind_some, List.getElem?_eq_getElem h,
    List.getD_eq_getElem _ _ h]

theorem setItem?_natCast {xs : List α} {i : ℕ} (h : i < xs.length) (a : α) :
    setItem? xs i a = some (xs.set i a) := by
  rw [setItem?, position?_natCast h, Option.map_some]

/-- Assigning an item updates the sequence as a function. -/
theorem getD_set {xs : List α} {i : ℕ} (h : i < xs.length) (a d : α) (j : ℕ) :
    (xs.set i a).getD j d = Function.update (fun j => xs.getD j d) i a j := by
  by_cases hj : j = i
  · subst hj
    simp [List.getD_eq_getElem?_getD, h]
  · simp [List.getD_eq_getElem?_getD, hj, Ne.symm hj]

end Support
