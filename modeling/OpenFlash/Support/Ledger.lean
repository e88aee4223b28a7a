import Mathlib.Data.List.Basic
import Mathlib.Data.List.Perm.Basic

/-! Ledgers of acquired and released resources. A ledger is in order when nothing is acquired
twice and only what is held is released. -/
namespace Support
variable {ρ : Type} [DecidableEq ρ]

inductive LedgerEvent (ρ : Type) where
  | acquire (resource : ρ)
  | release (resource : ρ)
  deriving DecidableEq, Repr

/-- One entry of a ledger, if it is in order. -/
def LedgerEvent.book (held : List ρ) : LedgerEvent ρ → Option (List ρ)
  | .acquire resource => if resource ∈ held then none else some (resource :: held)
  | .release resource => if resource ∈ held then some (held.erase resource) else none

/-- What is held after a ledger that is in order. -/
def heldFrom (held : List ρ) (events : List (LedgerEvent ρ)) : Option (List ρ) :=
  events.foldlM LedgerEvent.book held

theorem heldFrom_append (held : List ρ) (first second : List (LedgerEvent ρ)) :
    heldFrom held (first ++ second) = (heldFrom held first).bind fun h => heldFrom h second := by
  simp [heldFrom, List.foldlM_append]

/-- Acquiring resources that are new and distinct. -/
theorem heldFrom_acquire {resources held : List ρ} (h : (resources ++ held).Nodup) :
    heldFrom held (resources.map .acquire) = some (resources.reverse ++ held) := by
  induction resources generalizing held with
  | nil => rfl
  | cons resource rest ih =>
    have hnew : resource ∉ held := by
      intro hheld
      exact (List.nodup_cons.mp h).1 (List.mem_append_right rest hheld)
    have hrest : (rest ++ resource :: held).Nodup :=
      (List.perm_middle.nodup_iff).mpr h
    have hih := ih hrest
    simp only [heldFrom, List.map_cons, List.foldlM_cons, LedgerEvent.book, hnew, if_false] at hih ⊢
    simpa using hih

/-- Releasing everything, in any order. -/
theorem heldFrom_release {resources held : List ρ} (h : held.Perm resources) :
    heldFrom held (resources.map .release) = some [] := by
  induction resources generalizing held with
  | nil =>
    rw [List.perm_nil.mp h]
    rfl
  | cons resource rest ih =>
    have hheld : resource ∈ held := h.mem_iff.mpr List.mem_cons_self
    have hrest : (held.erase resource).Perm rest := by
      simpa using h.erase resource
    have hih := ih hrest
    simp only [heldFrom, List.map_cons, List.foldlM_cons, LedgerEvent.book, hheld, if_true] at hih ⊢
    simpa using hih

/-- Distinct resources, acquired and then all released. -/
theorem heldFrom_unwound {resources order : List ρ} (hnodup : resources.Nodup)
    (h : order.Perm resources) :
    heldFrom [] (resources.map .acquire ++ order.map .release) = some [] := by
  have hacquire : heldFrom [] (resources.map .acquire) = some (resources.reverse ++ []) :=
    heldFrom_acquire (by simpa using hnodup)
  rw [heldFrom_append, hacquire, List.append_nil]
  exact heldFrom_release ((List.reverse_perm resources).trans h.symm)

end Support
