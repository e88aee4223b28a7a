import OpenFlash.Ftl.Conservation
import OpenFlash.Ftl.Relocation

/-! The pages that `_allocate` hands out during a call, and which LPNs the call maps. -/
namespace OpenFlash.Ftl
namespace PageMappingFTL
variable {c : ControllerConfig} {s s' : PageMappingFTL}

/-- The pages that `_allocate` returns during a relocation. -/
def relocationPages (c : ControllerConfig) (victim : BlockKey) :
    List ℤ → PageMappingFTL → List PhysicalPage
  | [], _ => []
  | lpn :: rest, s =>
      match allocate c (some victim) s with
      | (.error _, _) => []
      | (.ok physical, s) => physical :: relocationPages c victim rest (s.place lpn physical)

/-- The pages that `_allocate` returns during a call. -/
def allocations (c : ControllerConfig) (s : PageMappingFTL) : Call → List PhysicalPage
  | .write lpn =>
      match allocate c none (s.invalidatePrevious lpn) with
      | (.error _, _) => []
      | (.ok physical, _) => [physical]
  | .garbageCollect =>
      match s.victim? with
      | none => []
      | some victim =>
          if s.freePages c < (s.liveLpns victim).length then []
          else relocationPages c victim (s.liveLpns victim) (s.touchVictim victim)

theorem write_allocations {lpn : ℤ} {p : PhysicalPage} (h : s.write c lpn = (.ok p, s')) :
    s.allocations c (.write lpn) = [p] := by
  obtain ⟨t, ha, -⟩ := write_ok h
  rw [allocations, ha]

theorem relocationPages_length {victim : BlockKey} {live : List ℤ}
    (h : relocate c victim live s = (none, s')) :
    (relocationPages c victim live s).length = live.length := by
  induction live generalizing s with
  | nil => rfl
  | cons lpn rest ih =>
    rw [relocate] at h
    rw [relocationPages]
    rcases ha : allocate c (some victim) s with ⟨_ | p, t⟩
    · rw [ha] at h
      cases h
    · rw [ha] at h
      simp [ih h]

theorem garbageCollect_allocations {r : GarbageCollectionResult}
    (h : s.garbageCollect c = (.ok r, s')) :
    (s.allocations c .garbageCollect).length = r.pagesMoved := by
  have hcollects := garbageCollect_collects c s
  rw [h] at hcollects
  cases hcollects with
  | @done victim t hv hspace hr =>
    rw [allocations, hv]
    dsimp only
    rw [if_neg (Nat.not_lt.mpr hspace)]
    exact relocationPages_length hr

/-- A write maps its LPN and unmaps none. -/
theorem write_mapped {lpn : ℤ} {p : PhysicalPage} (h : s.write c lpn = (.ok p, s')) (l : ℤ) :
    (s'.mapping.get? l).isSome ↔ lpn = l ∨ (s.mapping.get? l).isSome := by
  obtain ⟨t, ha, rfl⟩ := write_ok h
  rw [place_get?]
  obtain ⟨hmapping, -⟩ := allocate_frame ha
  rw [hmapping, (s.invalidatePrevious_frame lpn).1]
  by_cases hl : lpn = l
  · simp [hl]
  · simp [hl]

/-- A collection moves mapped LPNs only. -/
theorem garbageCollect_mapped (hcounted : Counted s)
    {r : Except OutOfSpaceError GarbageCollectionResult} (h : s.garbageCollect c = (r, s'))
    (l : ℤ) : (s'.mapping.get? l).isSome ↔ (s.mapping.get? l).isSome := by
  have hrelocate : ∀ victim r t,
      relocate c victim (s.liveLpns victim) (s.touchVictim victim) = (r, t) →
        ((t.mapping.get? l).isSome ↔ (s.mapping.get? l).isSome) := by
    intro victim r t hr
    have hrule := relocate_rule (c := c) (s := s.touchVictim victim)
      (P := fun t => (t.mapping.get? l).isSome ↔ (s.mapping.get? l).isSome) victim
      (s.liveLpns victim) ?_ Iff.rfl
    · rwa [hr] at hrule
    · intro u v lpn p hu hlpn ha
      rw [place_get?, (allocate_frame ha).1]
      have hmapped := hcounted.mapped victim lpn (Support.PySet.mem_sorted.mp hlpn)
      by_cases hl : lpn = l
      · subst hl
        simp [hmapped]
      · simpa [hl] using hu
  have hcollects := garbageCollect_collects c s
  rw [h] at hcollects
  cases hcollects with
  | noVictim hv => exact Iff.rfl
  | noWorkspace hv hspace => exact Iff.rfl
  | stuck hv hspace hr => exact hrelocate _ _ _ hr
  | done hv hspace hr =>
    have hmapped := hrelocate _ _ _ hr
    exact hmapped

end PageMappingFTL
end OpenFlash.Ftl
