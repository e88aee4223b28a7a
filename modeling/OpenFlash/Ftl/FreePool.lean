import OpenFlash.Ftl.PageMapping

/-! The pages an FTL state can still hand out, and what `_allocate` does to them. -/
namespace OpenFlash.Ftl
namespace PageMappingFTL
variable {c : ControllerConfig} {s s' : PageMappingFTL}

/-- A page waits in `_reclaimed` or lies at or beyond the linear frontier. -/
def Available (c : ControllerConfig) (s : PageMappingFTL) (p : PhysicalPage) : Prop :=
  p ∈ s.reclaimed ∨
    ∃ i, s.nextPage ≤ i ∧ i < c.capacityPages ∧ physicalFromLinear c i = p

/-- No page is queued twice, and no queued page is also ahead of the frontier. -/
structure PoolDistinct (c : ControllerConfig) (s : PageMappingFTL) : Prop where
  nodup : s.reclaimed.Nodup
  apart : ∀ p ∈ s.reclaimed, ∀ i, s.nextPage ≤ i → i < c.capacityPages →
    physicalFromLinear c i ≠ p

theorem allocateLoop_some {avoid : Option BlockKey} (rest skipped : List PhysicalPage)
    {queue : List PhysicalPage} {p : PhysicalPage}
    (h : allocateLoop avoid rest.length (rest ++ skipped) = (some p, queue)) :
    some (blockKey p) ≠ avoid ∧ (p :: queue).Perm (rest ++ skipped) := by
  induction rest generalizing skipped with
  | nil => simp [allocateLoop] at h
  | cons q rest ih =>
    simp only [List.length_cons, List.cons_append, allocateLoop] at h
    split_ifs at h with hq
    · simp only [Prod.mk.injEq, Option.some.injEq] at h
      obtain ⟨rfl, rfl⟩ := h
      exact ⟨hq, List.Perm.refl _⟩
    · rw [List.append_assoc] at h
      obtain ⟨hp, hperm⟩ := ih _ h
      refine ⟨hp, hperm.trans ?_⟩
      rw [← List.append_assoc, List.cons_append]
      exact List.perm_append_singleton q (rest ++ skipped)

/-- A pass that finds no page outside the avoided block restores the queue order. -/
theorem allocateLoop_none {avoid : Option BlockKey} (rest skipped : List PhysicalPage)
    {queue : List PhysicalPage}
    (h : allocateLoop avoid rest.length (rest ++ skipped) = (none, queue)) :
    (∀ p ∈ rest, some (blockKey p) = avoid) ∧ queue = skipped ++ rest := by
  induction rest generalizing skipped with
  | nil => simpa [allocateLoop, eq_comm] using h
  | cons q rest ih =>
    simp only [List.length_cons, List.cons_append, allocateLoop] at h
    split_ifs at h with hq
    · simp at h
    · rw [List.append_assoc] at h
      obtain ⟨hall, hqueue⟩ := ih _ h
      exact ⟨List.forall_mem_cons.mpr ⟨not_not.mp hq, hall⟩, by simp [hqueue]⟩

/-- The two ways an allocation succeeds. -/
theorem allocate_ok_cases {avoid : Option BlockKey} {p : PhysicalPage}
    (h : allocate c avoid s = (.ok p, s')) :
    (∃ queue, (p :: queue).Perm s.reclaimed ∧ some (blockKey p) ≠ avoid ∧
      s' = { s with reclaimed := queue }) ∨
    ((∀ q ∈ s.reclaimed, some (blockKey q) = avoid) ∧ s.nextPage < c.capacityPages ∧
      p = physicalFromLinear c s.nextPage ∧ s' = { s with nextPage := s.nextPage + 1 }) := by
  unfold allocate at h
  split at h
  next physical queue hl =>
    simp only [Prod.mk.injEq, Except.ok.injEq] at h
    obtain ⟨rfl, rfl⟩ := h
    have hs := allocateLoop_some s.reclaimed [] (by simpa using hl)
    exact Or.inl ⟨queue, by simpa using hs.2, hs.1, rfl⟩
  next queue hl =>
    have hs := allocateLoop_none s.reclaimed [] (by simpa using hl)
    obtain rfl : queue = s.reclaimed := by simpa using hs.2
    split_ifs at h with hc
    · simp at h
    · simp only [Prod.mk.injEq, Except.ok.injEq] at h
      exact Or.inr ⟨hs.1, by omega, h.1.symm, h.2.symm⟩

/-- A failed allocation changes nothing; the frontier is exhausted and only pages of the
avoided block are queued. -/
theorem allocate_error_cases {avoid : Option BlockKey} {e : OutOfSpaceError}
    (h : allocate c avoid s = (.error e, s')) :
    s' = s ∧ c.capacityPages ≤ s.nextPage ∧ ∀ q ∈ s.reclaimed, some (blockKey q) = avoid := by
  unfold allocate at h
  split at h
  next => simp at h
  next queue hl =>
    have hs := allocateLoop_none s.reclaimed [] (by simpa using hl)
    obtain rfl : queue = s.reclaimed := by simpa using hs.2
    split_ifs at h with hc
    · simp only [Prod.mk.injEq] at h
      exact ⟨h.2.symm, hc, hs.1⟩
    · simp at h

/-- A failed allocation leaves only avoided pages behind. -/
theorem allocate_error {avoid : Option BlockKey} {e : OutOfSpaceError}
    (h : allocate c avoid s = (.error e, s')) :
    s' = s ∧ ∀ q, Available c s q → some (blockKey q) = avoid := by
  obtain ⟨hs, hnext, hqueued⟩ := allocate_error_cases h
  refine ⟨hs, ?_⟩
  rintro q (hq | ⟨i, hi, hic, -⟩)
  · exact hqueued q hq
  · omega

theorem allocate_frame {avoid : Option BlockKey} {r : Except OutOfSpaceError PhysicalPage}
    (h : allocate c avoid s = (r, s')) :
    s'.mapping = s.mapping ∧ s'.validLpns = s.validLpns ∧ s'.invalidPages = s.invalidPages ∧
      s'.eraseCounts = s.eraseCounts := by
  cases r with
  | error e => rw [(allocate_error h).1]; exact ⟨rfl, rfl, rfl, rfl⟩
  | ok p =>
    rcases allocate_ok_cases h with ⟨_, _, _, rfl⟩ | ⟨_, _, _, rfl⟩
    · exact ⟨rfl, rfl, rfl, rfl⟩
    · exact ⟨rfl, rfl, rfl, rfl⟩

/-- The allocated page leaves the pool and every other page stays in it. -/
theorem allocate_ok_pool {avoid : Option BlockKey} {p : PhysicalPage} (hd : PoolDistinct c s)
    (h : allocate c avoid s = (.ok p, s')) :
    Available c s p ∧ (∀ q, Available c s' q ↔ Available c s q ∧ q ≠ p) ∧ PoolDistinct c s' := by
  rcases allocate_ok_cases h with ⟨queue, hperm, -, rfl⟩ | ⟨-, hlt, rfl, rfl⟩
  · have hn : (p :: queue).Nodup := hperm.nodup_iff.mpr hd.nodup
    have hm : ∀ q, q ∈ s.reclaimed ↔ q = p ∨ q ∈ queue := fun q => by
      rw [← hperm.mem_iff, List.mem_cons]
    have hp : p ∈ s.reclaimed := (hm p).mpr (Or.inl rfl)
    have hnot : p ∉ queue := (List.nodup_cons.mp hn).1
    refine ⟨Or.inl hp, fun q => ⟨?_, ?_⟩,
      ⟨hn.of_cons, fun q hq => hd.apart q ((hm q).mpr (Or.inr hq))⟩⟩
    · rintro (hq | ⟨i, hi, hic, rfl⟩)
      · exact ⟨Or.inl ((hm q).mpr (Or.inr hq)), fun he => hnot (he ▸ hq)⟩
      · exact ⟨Or.inr ⟨i, hi, hic, rfl⟩, hd.apart p hp i hi hic⟩
    · rintro ⟨hq | hq, hne⟩
      · exact Or.inl (((hm q).mp hq).resolve_left hne)
      · exact Or.inr hq
  · refine ⟨Or.inr ⟨s.nextPage, le_rfl, hlt, rfl⟩, fun q => ⟨?_, ?_⟩,
      ⟨hd.nodup, fun q hq i hi => hd.apart q hq i (by simp only at hi; omega)⟩⟩
    · rintro (hq | ⟨i, hi, hic, rfl⟩)
      · exact ⟨Or.inl hq, fun he => hd.apart q hq s.nextPage le_rfl hlt he.symm⟩
      · simp only at hi
        refine ⟨Or.inr ⟨i, by omega, hic, rfl⟩, fun he => ?_⟩
        have := physicalFromLinear_injective c he
        omega
    · rintro ⟨hq | ⟨i, hi, hic, rfl⟩, hne⟩
      · exact Or.inl hq
      · have hi' : i ≠ s.nextPage := fun he => hne (he ▸ rfl)
        exact Or.inr ⟨i, by simp only; omega, hic, rfl⟩

/-- An allocation takes one page. -/
theorem allocate_freePages {avoid : Option BlockKey} {p : PhysicalPage}
    (h : allocate c avoid s = (.ok p, s')) : s'.freePages c + 1 = s.freePages c := by
  rcases allocate_ok_cases h with ⟨queue, hperm, -, rfl⟩ | ⟨-, hlt, -, rfl⟩
  · simp only [freePages, ← hperm.length_eq, List.length_cons]
    omega
  · simp only [freePages]
    omega

/-- Without an avoided block, an allocation fails only on an empty pool. -/
theorem allocate_none_ok (h : 0 < s.freePages c) : ∃ p, (allocate c none s).1 = .ok p := by
  rcases hr : allocate c none s with ⟨r, s'⟩
  cases r with
  | ok p => exact ⟨p, rfl⟩
  | error e =>
    exfalso
    have hall := (allocate_error hr).2
    have hrec : s.reclaimed = [] := by
      apply List.eq_nil_iff_forall_not_mem.mpr
      intro q hq
      exact absurd (hall q (Or.inl hq)) (by simp)
    have hlt : s.nextPage < c.capacityPages := by
      simp only [freePages, hrec, List.length_nil] at h
      omega
    exact absurd (hall _ (Or.inr ⟨s.nextPage, le_rfl, hlt, rfl⟩)) (by simp)

end PageMappingFTL
end OpenFlash.Ftl
