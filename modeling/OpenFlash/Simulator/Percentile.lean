import OpenFlash.Simulator.Run
import OpenFlash.Support.Fallible
import OpenFlash.Support.OrderStatistics

/-! Percentiles by nearest rank: what `_percentile` picks from any list of ordered values, and
how the percentiles of a `SimulationResult` compare. -/
namespace OpenFlash.Simulator
open Ftl PageMappingFTL Support
variable {α : Type} [LinearOrder α] {values : List α} {p : ℕ}

/-- `ceil(p * n / 100)`. -/
def nearestRank (p n : ℕ) : ℕ := ⌈(p * n : ℚ) / 100⌉₊

theorem nearestRank_pos {n : ℕ} (hp : 1 ≤ p) (hn : 0 < n) : 0 < nearestRank p n := by
  rw [nearestRank, Nat.ceil_pos]
  positivity

theorem nearestRank_le {n : ℕ} (hp : p ≤ 100) : nearestRank p n ≤ n := by
  rw [nearestRank, Nat.ceil_le, div_le_iff₀ (by norm_num), mul_comm]
  exact mul_le_mul_of_nonneg_left (by exact_mod_cast hp) (Nat.cast_nonneg n)

theorem nearestRank_mono {p p' : ℕ} (h : p ≤ p') (n : ℕ) : nearestRank p n ≤ nearestRank p' n := by
  unfold nearestRank
  gcongr

/-- The index that the source computes is one less than the rank. -/
theorem index_eq (hp : 1 ≤ p) {n : ℕ} (hn : 0 < n) :
    max 0 (⌈(p : ℚ) / 100 * n⌉ - 1) = ((nearestRank p n - 1 : ℕ) : ℤ) := by
  have hnonneg : (0 : ℚ) ≤ p * n / 100 := by positivity
  have hceil : ⌈(p : ℚ) / 100 * n⌉ = (nearestRank p n : ℤ) := by
    rw [nearestRank, Int.natCast_ceil_eq_ceil hnonneg, div_mul_eq_mul_div]
  have hpos := nearestRank_pos hp hn
  rw [hceil]
  omega

theorem place_lt_length (h : values ≠ []) (hp : 1 ≤ p) (hp' : p ≤ 100) :
    nearestRank p values.length - 1 < (sortedBy id values).length := by
  have hpos := nearestRank_pos hp (List.length_pos_iff.mpr h)
  have hle : nearestRank p values.length ≤ values.length := nearestRank_le hp'
  rw [(sortedBy_id_perm values).length_eq]
  omega

/-- A percentile is the value at the place of its rank in the sorted list. -/
theorem percentileOf_eq_ok_iff (h : values ≠ []) (hp : 1 ≤ p) (hp' : p ≤ 100) {value : α} :
    percentileOf values p = .ok value ↔
      (sortedBy id values)[nearestRank p values.length - 1]? = some value := by
  have hlt := place_lt_length h hp hp'
  rw [percentileOf, if_neg h]
  dsimp only
  rw [(sortedBy_id_perm values).length_eq, index_eq hp (List.length_pos_iff.mpr h),
    getItem?_natCast hlt value, List.getD_eq_getElem _ _ hlt, List.getElem?_eq_getElem hlt]
  simp

/-- `value` has the rank of the percentile `p` among `values`. -/
structure NearestRank (values : List α) (p : ℕ) (value : α) : Prop where
  mem : value ∈ values
  le : nearestRank p values.length ≤ values.countP (· ≤ value)
  lt : values.countP (· < value) < nearestRank p values.length

theorem percentileOf_nearestRank (h : values ≠ []) (hp : 1 ≤ p) (hp' : p ≤ 100) :
    ∃ value, percentileOf values p = .ok value ∧ NearestRank values p value := by
  have hpos := nearestRank_pos hp (List.length_pos_iff.mpr h)
  have hplace := List.getElem?_eq_getElem (place_lt_length h hp hp')
  have hbelow := place_lt_countP_le hplace
  have habove := countP_lt_le_place hplace
  refine ⟨_, (percentileOf_eq_ok_iff h hp hp').mpr hplace, mem_of_place hplace, ?_, ?_⟩
  · omega
  · omega

theorem percentileOf_congr {values' : List α} (h : values'.Perm values) (p : ℕ) :
    percentileOf values' p = percentileOf values p := by
  by_cases hnil : values = []
  · rw [hnil] at h ⊢
    rw [h.eq_nil]
  · have hnil' : values' ≠ [] := fun heq => hnil (heq ▸ h).symm.eq_nil
    rw [percentileOf, percentileOf, if_neg hnil, if_neg hnil', sortedBy_id_congr h]

theorem percentileOf_mono (h : values ≠ []) (hp : 1 ≤ p) {p' : ℕ} (hpp : p ≤ p') (hp' : p' ≤ 100)
    {value value' : α} (hvalue : percentileOf values p = .ok value)
    (hvalue' : percentileOf values p' = .ok value') : value ≤ value' := by
  rw [percentileOf_eq_ok_iff h hp (hpp.trans hp')] at hvalue
  rw [percentileOf_eq_ok_iff h (hp.trans hpp) hp'] at hvalue'
  exact le_of_places hvalue hvalue' (Nat.sub_le_sub_right (nearestRank_mono hpp _) 1)

theorem percentileOf_mem (h : values ≠ []) (hp : 1 ≤ p) (hp' : p ≤ 100) {value : α}
    (hvalue : percentileOf values p = .ok value) : value ∈ values :=
  mem_of_place ((percentileOf_eq_ok_iff h hp hp').mp hvalue)

/-- The percentiles of a report come from the latencies of its completions. -/
theorem report_percentiles {σ : Type} {c : ControllerConfig} {policy : String}
    {requests : List IORequest} {m : Mapped} {t : Timing σ} {result : SimulationResult}
    (h : report c policy requests m t = .ok result) :
    percentile (t.completions.map Completion.latencyUs) 50 = .ok result.p50LatencyUs ∧
      percentile (t.completions.map Completion.latencyUs) 95 = .ok result.p95LatencyUs ∧
      percentile (t.completions.map Completion.latencyUs) 99 = .ok result.p99LatencyUs := by
  obtain ⟨p50, h50, h⟩ := bind_eq_ok_iff.mp h
  obtain ⟨p95, h95, h⟩ := bind_eq_ok_iff.mp h
  obtain ⟨p99, h99, h⟩ := bind_eq_ok_iff.mp h
  obtain ⟨readP99, -, h⟩ := bind_eq_ok_iff.mp h
  obtain ⟨writeP99, -, h⟩ := bind_eq_ok_iff.mp h
  rw [← Except.ok.inj h]
  exact ⟨h50, h95, h99⟩

/-- A run that returns has simulated and then reported. -/
theorem run_reports {σ : Type} {c : ControllerConfig} {media : MediaModel σ}
    {requests : List IORequest} {sim sim' : Simulator σ} {result : SimulationResult}
    (h : sim.run c media requests = (.ok result, sim')) :
    ∃ m t, sim.simulate c media requests = (.ok (m, t), sim') ∧
      report c sim'.policy requests m t = .ok result := by
  unfold run at h
  rcases hsim : sim.simulate c media requests with ⟨e | ⟨m, t⟩, after⟩
  · rw [hsim] at h
    cases h
  · rw [hsim] at h
    simp only [Prod.mk.injEq] at h
    obtain ⟨hreport, rfl⟩ := h
    exact ⟨m, t, rfl, hreport⟩

theorem percentiles_ordered {latencies : List ℚ} {p50 p95 p99 : ℚ}
    (h50 : percentile latencies 50 = .ok p50) (h95 : percentile latencies 95 = .ok p95)
    (h99 : percentile latencies 99 = .ok p99) :
    ∃ largest, latencies.max? = some largest ∧ p50 ≤ p95 ∧ p95 ≤ p99 ∧ p99 ≤ largest := by
  have hne : latencies ≠ [] := by
    rintro rfl
    cases h50
  unfold percentile at h50 h95 h99
  obtain ⟨largest, hmax⟩ : ∃ largest, latencies.max? = some largest :=
    Option.isSome_iff_exists.mp (List.isSome_max?_iff.mpr hne)
  have hmem := percentileOf_mem hne (by decide) (by decide) h99
  exact ⟨largest, hmax, percentileOf_mono hne (by decide) (by decide) (by decide) h50 h95,
    percentileOf_mono hne (by decide) (by decide) (by decide) h95 h99,
    (List.max?_eq_some_iff.mp hmax).2 _ hmem⟩

/-- Of any nonempty list of ordered values `_percentile` picks the value of the nearest rank,
whatever the order of the list, and a higher percentile is not smaller; so the percentiles of
every run that returns are in order and none exceeds the largest latency. -/
theorem percentile_picksNearestRank :
    (∀ (α : Type) [LinearOrder α] (values : List α), values ≠ [] → ∀ p : ℕ, 1 ≤ p → p ≤ 100 →
      ∃ value, percentileOf values p = .ok value ∧ NearestRank values p value ∧
        (∀ values' : List α, values'.Perm values → percentileOf values' p = .ok value) ∧
        ∀ p', p ≤ p' → p' ≤ 100 →
          ∃ value', percentileOf values p' = .ok value' ∧ value ≤ value') ∧
    ∀ (σ : Type) (c : ControllerConfig) (media : MediaModel σ) (requests : List IORequest)
      (sim sim' : Simulator σ) (result : SimulationResult),
      sim.run c media requests = (.ok result, sim') →
        ∃ m t largest, sim.simulate c media requests = (.ok (m, t), sim') ∧
          (t.completions.map Completion.latencyUs).max? = some largest ∧
          result.p50LatencyUs ≤ result.p95LatencyUs ∧
          result.p95LatencyUs ≤ result.p99LatencyUs ∧ result.p99LatencyUs ≤ largest := by
  constructor
  · intro α _ values hne p hp hp'
    obtain ⟨value, hvalue, hrank⟩ := percentileOf_nearestRank hne hp hp'
    refine ⟨value, hvalue, hrank, ?_, ?_⟩
    · exact fun values' hperm => (percentileOf_congr hperm p).trans hvalue
    · intro p' hpp hle
      obtain ⟨value', hvalue', -⟩ := percentileOf_nearestRank hne (hp.trans hpp) hle
      exact ⟨value', hvalue', percentileOf_mono hne hp hpp hle hvalue hvalue'⟩
  · intro σ c media requests sim sim' result hrun
    obtain ⟨m, t, hsim, hreport⟩ := run_reports hrun
    obtain ⟨h50, h95, h99⟩ := report_percentiles hreport
    obtain ⟨largest, hmax, hordered⟩ := percentiles_ordered h50 h95 h99
    exact ⟨m, t, largest, hsim, hmax, hordered⟩

/-- Two values of four are at most the median, and a run of two requests. -/
theorem median_writeThenRead :
    (∃ value, percentileOf [3, 1, 4, 1] 50 = .ok value ∧ NearestRank [3, 1, 4, 1] 50 value) ∧
    ∃ result sim, (start "fifo" ()).run twoBlockConfig steadyMedia writeThenRead
        = (.ok result, sim) ∧ result.p50LatencyUs ≤ result.p99LatencyUs := by
  constructor
  · obtain ⟨value, hvalue, hrank, -⟩ := percentile_picksNearestRank.1 ℕ [3, 1, 4, 1]
      (List.cons_ne_nil _ _) 50 (by decide) (by decide)
    exact ⟨value, hvalue, hrank⟩
  · have hmap : runMapping twoBlockConfig writeThenRead (start "fifo" ()).ftl = (.ok _, _) := rfl
    obtain ⟨t, served, result, -, -, hrun, -⟩ :=
      run_mapped steadyMedia (fresh_placed twoBlockConfig) (Or.inl rfl) hmap
    obtain ⟨_, _, _, -, -, hmiddle, hupper, -⟩ :=
      percentile_picksNearestRank.2 _ _ _ _ _ _ _ hrun
    exact ⟨result, _, hrun, hmiddle.trans hupper⟩

end OpenFlash.Simulator
