import Mathlib.Algebra.Order.Ring.Rat
import OpenFlash.Ftl.Recovery
import OpenFlash.Support.DictOrder

/-! Every page that the mapping hands out, maps, keeps free or erases lies on the configured
flash, whatever the geometry. -/
namespace OpenFlash.Ftl
open Support

/-- The block exists on the configured flash. -/
def BlockInGeometry (c : ControllerConfig) (block : BlockKey) : Prop :=
  (0 ≤ block.1 ∧ block.1 < c.channels) ∧ (0 ≤ block.2.1 ∧ block.2.1 < c.diesPerChannel) ∧
    (0 ≤ block.2.2 ∧ block.2.2 < c.blocksPerDie)

theorem InGeometry.blockKey {c : ControllerConfig} {p : PhysicalPage} (h : InGeometry c p) :
    BlockInGeometry c (blockKey p) := ⟨h.1, h.2.1, h.2.2.1⟩

namespace PageMappingFTL
variable {c : ControllerConfig} {s s' : PageMappingFTL}

/-- Reading the count stores the `defaultdict` default. -/
def wearFraction (c : ControllerConfig) (s : PageMappingFTL) (physical : PhysicalPage) :
    ℚ × PageMappingFTL :=
  let count := s.eraseCounts.getD (blockKey physical) 0
  (min 1 (count / c.maxEraseCycles),
    { s with eraseCounts := s.eraseCounts.touch (blockKey physical) 0 })

/-- Pages and the blocks that a collection may choose exist. -/
structure Placed (c : ControllerConfig) (s : PageMappingFTL) : Prop extends PagesInside c s where
  blocks : ∀ block, (s.invalidPages.get? block).isSome → BlockInGeometry c block

theorem fresh_placed (c : ControllerConfig) : Placed c fresh := by
  constructor
  · constructor
    · intro l p h
      cases h
    · intro p h
      cases h
  · intro block h
    cases h

theorem blockPages_inGeometry {block : BlockKey} (h : BlockInGeometry c block) {p : PhysicalPage}
    (hp : p ∈ blockPages c block) : InGeometry c p := by
  simp only [blockPages, List.mem_map, List.mem_range] at hp
  obtain ⟨page, hpage, rfl⟩ := hp
  exact ⟨h.1, h.2.1, h.2.2, Int.natCast_nonneg page, Int.ofNat_lt.mpr hpage⟩

/-- The formula for unmapped LPNs stays inside, also beyond the capacity. -/
theorem mapRead_inGeometry (h : Placed c s) (lpn : ℤ) : InGeometry c (s.mapRead c lpn) := by
  unfold mapRead
  cases hl : s.lookup lpn with
  | some p => exact h.mapping lpn p hl
  | none =>
    obtain ⟨hchannels, hdies, hpages, hblocks, -⟩ := c.geometry_pos
    have hpos : (0 : ℤ) < c.dies := Int.ofNat_lt.mpr c.dies_pos
    have hstripe := Int.emod_nonneg lpn hpos.ne'
    have hlt : lpn % c.dies < c.channels * c.diesPerChannel := by
      have hmod := Int.emod_lt_of_pos lpn hpos
      rwa [ControllerConfig.dies, Int.natCast_mul] at hmod
    refine ⟨⟨Int.emod_nonneg _ (by omega), Int.emod_lt_of_pos _ (by omega)⟩,
      ⟨Int.ediv_nonneg hstripe (by omega), ?_⟩,
      ⟨Int.emod_nonneg _ (by omega), Int.emod_lt_of_pos _ (by omega)⟩,
      ⟨Int.emod_nonneg _ (by omega), Int.emod_lt_of_pos _ (by omega)⟩⟩
    exact Int.ediv_lt_of_lt_mul (by omega) (Int.mul_comm _ _ ▸ hlt)

theorem allocate_placed {avoid : Option BlockKey} {p : PhysicalPage} (h : Placed c s)
    (ha : allocate c avoid s = (.ok p, s')) : InGeometry c p ∧ Placed c s' := by
  rcases allocate_ok_cases ha with ⟨queue, hperm, -, rfl⟩ | ⟨-, hlt, rfl, rfl⟩
  · have hmem : ∀ q ∈ p :: queue, InGeometry c q := fun q hq =>
      h.reclaimed q (hperm.mem_iff.mp hq)
    exact ⟨hmem p List.mem_cons_self,
      ⟨⟨h.mapping, fun q hq => hmem q (List.mem_cons_of_mem p hq)⟩, h.blocks⟩⟩
  · exact ⟨physicalFromLinear_inGeometry hlt, ⟨⟨h.mapping, h.reclaimed⟩, h.blocks⟩⟩

theorem place_placed (h : Placed c s) (lpn : ℤ) {p : PhysicalPage} (hp : InGeometry c p) :
    Placed c (s.place lpn p) := by
  refine ⟨⟨fun l q hq => ?_, h.reclaimed⟩, h.blocks⟩
  have hget : (s.mapping.set lpn p).get? l = some q := hq
  rw [Dict.get?_set] at hget
  split_ifs at hget with hl
  · rwa [← Option.some.inj hget]
  · exact h.mapping l q hget

theorem invalidatePrevious_placed (h : Placed c s) (lpn : ℤ) :
    Placed c (s.invalidatePrevious lpn) := by
  unfold invalidatePrevious
  split
  · exact h
  next previous hprevious =>
    refine ⟨⟨h.mapping, h.reclaimed⟩, fun block hblock => ?_⟩
    rcases (Dict.isSome_get?_set ..).mp hblock with rfl | hblock
    · exact (h.mapping lpn previous hprevious).blockKey
    · exact h.blocks block hblock

/-- A victim has an entry in `invalid_pages`. -/
theorem victim?_inGeometry (h : Placed c s) {victim : BlockKey} (hv : s.victim? = some victim) :
    BlockInGeometry c victim := by
  have hmem : victim ∈ s.candidates := List.argmax_mem hv
  simp only [candidates, List.mem_map, List.mem_filter] at hmem
  obtain ⟨e, ⟨hentry, -⟩, rfl⟩ := hmem
  apply h.blocks
  rw [Dict.get?_eq_some_iff.mpr hentry]
  rfl

theorem erase_placed (h : Placed c s) {victim : BlockKey} (hv : BlockInGeometry c victim) :
    Placed c (s.erase c victim) := by
  refine ⟨⟨h.mapping, fun p hp => ?_⟩, fun block hblock => ?_⟩
  · rcases List.mem_append.mp hp with hp | hp
    · exact h.reclaimed p hp
    · exact blockPages_inGeometry hv hp
  · rcases (Dict.isSome_get?_set ..).mp hblock with rfl | hblock
    · exact hv
    · exact h.blocks block hblock

theorem after_placed (call : Call) (h : Placed c s) : Placed c (after c s call) := by
  refine after_rule (P := Placed c) ?_ ?_ ?_ ?_ call h
  · exact fun t lpn ht => invalidatePrevious_placed ht lpn
  · intro t u avoid lpn p ht ha
    obtain ⟨hp, hu⟩ := allocate_placed ht ha
    exact place_placed hu lpn hp
  · exact fun t victim ht => ⟨⟨ht.mapping, ht.reclaimed⟩, ht.blocks⟩
  · exact fun t victim hv ht => erase_placed ht (victim?_inGeometry h hv)

theorem write_inGeometry (h : Placed c s) {lpn : ℤ} {p : PhysicalPage}
    (hw : s.write c lpn = (.ok p, s')) : InGeometry c p := by
  obtain ⟨t, ha, -⟩ := write_ok hw
  exact (allocate_placed (invalidatePrevious_placed h lpn) ha).1

theorem wearFraction_placed (h : Placed c s) (p : PhysicalPage) :
    Placed c (s.wearFraction c p).2 := ⟨⟨h.mapping, h.reclaimed⟩, h.blocks⟩

end PageMappingFTL
end OpenFlash.Ftl
