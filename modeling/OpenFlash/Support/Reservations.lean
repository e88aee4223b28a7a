import Mathlib.Order.CompletePartialOrder
import Mathlib.Order.Interval.Set.Disjoint

/-! Reservations of resources in time. A resource whose reservations each begin when the one
before has ended is used by one of them at a time. -/
namespace Support
variable {κ τ : Type} [LinearOrder τ]

/-- A half-open interval of time on one resource. -/
structure Reservation (κ τ : Type) where
  resource : κ
  start : τ
  stop : τ

def Reservation.interval (r : Reservation κ τ) : Set τ := Set.Ico r.start r.stop

/-- No two reservations of a resource overlap. -/
def Exclusive (reservations : List (Reservation κ τ)) : Prop :=
  reservations.Pairwise fun r s => r.resource = s.resource → Disjoint r.interval s.interval

/-- Reservations that do not overlap and end by the time their resource is ready again. -/
structure Reserved (ready : κ → τ) (reservations : List (Reservation κ τ)) : Prop where
  exclusive : Exclusive reservations
  ended : ∀ r ∈ reservations, r.stop ≤ ready r.resource

theorem reserved_nil (ready : κ → τ) : Reserved ready [] := by
  refine ⟨List.Pairwise.nil, fun r hr => ?_⟩
  cases hr

/-- A reservation that begins when its resource is ready overlaps none before it. -/
theorem Reserved.concat [DecidableEq κ] {ready : κ → τ} {reservations : List (Reservation κ τ)}
    (h : Reserved ready reservations) {r : Reservation κ τ} (hready : ready r.resource ≤ r.start)
    (hstop : r.start ≤ r.stop) :
    Reserved (Function.update ready r.resource r.stop) (reservations ++ [r]) := by
  constructor
  · apply List.pairwise_append.mpr
    refine ⟨h.exclusive, List.pairwise_singleton _ _, fun s hs r' hr' hsame => ?_⟩
    obtain rfl := List.mem_singleton.mp hr'
    apply Set.Ico_disjoint_Ico.mpr
    have hended : s.stop ≤ r'.start := (h.ended s hs).trans (hsame ▸ hready)
    exact (min_le_left _ _).trans (hended.trans (le_max_right _ _))
  · intro s hs
    by_cases hsame : s.resource = r.resource
    · rw [hsame, Function.update_self]
      rcases List.mem_append.mp hs with hs | hs
      · exact (h.ended s hs).trans (hsame ▸ hready.trans hstop)
      · rw [List.mem_singleton.mp hs]
    · rw [Function.update_of_ne hsame]
      rcases List.mem_append.mp hs with hs | hs
      · exact h.ended s hs
      · exact absurd (congrArg Reservation.resource (List.mem_singleton.mp hs)) hsame

end Support
