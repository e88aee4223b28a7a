import OpenFlash.Ftl.Relocation
import OpenFlash.Support.DictOrder

/-! What a call leaves behind when it raises. A write has invalidated the previous page by
the time its allocation fails, and a collection whose workspace check counted pages of the
victim itself gives up after some LPNs have moved. -/
namespace OpenFlash.Ftl
open Support
namespace PageMappingFTL
variable {c : ControllerConfig} {s s' : PageMappingFTL} {victim : BlockKey}

/-- A write that raises leaves the state as it was. -/
def WriteAtomic (c : ControllerConfig) (s : PageMappingFTL) (lpn : ℤ) : Prop :=
  ∀ e s', s.write c lpn = (.error e, s') → s' = s

theorem invalidatePrevious_of_unmapped {lpn : ℤ} (h : s.mapping.get? lpn = none) :
    s.invalidatePrevious lpn = s := by
  unfold invalidatePrevious
  rw [h]

/-- Invalidating a mapped page is visible in the count of its block. -/
theorem invalidatePrevious_ne {lpn : ℤ} (h : s.mapping.get? lpn ≠ none) :
    s.invalidatePrevious lpn ≠ s := by
  obtain ⟨previous, hprevious⟩ := Option.ne_none_iff_exists'.mp h
  intro heq
  have hcount : (s.invalidatePrevious lpn).invalidPages.getD (blockKey previous) 0
      = s.invalidPages.getD (blockKey previous) 0 + 1 := by
    unfold invalidatePrevious
    rw [hprevious]
    exact (Dict.getD_set _ _ _ _ _).trans (if_pos rfl)
  rw [heq] at hcount
  omega

theorem write_of_full (lpn : ℤ) (h : s.freePages c = 0) :
    ∃ e, s.write c lpn = (.error e, s.invalidatePrevious lpn) := by
  obtain ⟨-, hrec, hnext⟩ := s.invalidatePrevious_frame lpn
  rcases hr : allocate c none (s.invalidatePrevious lpn) with ⟨r, t⟩
  cases r with
  | ok p =>
    have hfree := allocate_freePages hr
    simp only [freePages, hrec, hnext] at hfree h
    omega
  | error e =>
    refine ⟨e, ?_⟩
    unfold write
    rw [hr, (allocate_error hr).1]

/-- In every state, reachable or not, the write is atomic exactly when it cannot hit a full
pool with a page to invalidate. -/
theorem write_atomic_iff (c : ControllerConfig) (s : PageMappingFTL) (lpn : ℤ) :
    WriteAtomic c s lpn ↔ s.mapping.get? lpn = none ∨ 0 < s.freePages c := by
  constructor
  · intro h
    by_contra hnot
    rw [not_or] at hnot
    obtain ⟨e, hw⟩ := write_of_full lpn (Nat.eq_zero_of_not_pos hnot.2)
    exact invalidatePrevious_ne hnot.1 (h e _ hw)
  · rintro (hunmapped | hfree) e s' hw
    · rw [(write_error hw).1, invalidatePrevious_of_unmapped hunmapped]
    · obtain ⟨-, hrec, hnext⟩ := s.invalidatePrevious_frame lpn
      have hzero := (write_error hw).2
      simp only [freePages, hrec, hnext] at hzero hfree
      omega

/-- The overwrite of a full flash raises with the page of LPN 0 still mapped, no longer
listed and counted invalid, and the next collection frees it. -/
theorem overwriteFull_not_atomic :
    let s := run onePageConfig [.write 0]
    let failed := s.write onePageConfig 0
    let collected := failed.2.garbageCollect onePageConfig
    (∃ e, failed.1 = .error e) ∧ ¬ WriteAtomic onePageConfig s 0 ∧
      0 ∈ s.validLpns.getD (0, 0, 0) .empty ∧ 0 ∉ failed.2.validLpns.getD (0, 0, 0) .empty ∧
      failed.2.invalidPages.getD (0, 0, 0) 0 = 1 ∧
      collected.2.mapping.get? 0 = some ⟨0, 0, 0, 0⟩ ∧ ⟨0, 0, 0, 0⟩ ∈ collected.2.reclaimed := by
  refine ⟨⟨_, rfl⟩, ?_, by decide, by decide, by decide, by decide, by decide⟩
  intro hatomic
  have hcount := congrArg (fun t => t.invalidPages.getD (0, 0, 0) 0) (hatomic _ _ rfl)
  revert hcount
  decide

/-- Nothing a caller can read has changed; the free pages may stand in another order. -/
structure Untouched (s s' : PageMappingFTL) : Prop where
  mapping : s'.mapping = s.mapping
  validLpns : s'.validLpns = s.validLpns
  invalidPages : s'.invalidPages = s.invalidPages
  eraseCounts : ∀ block, s'.eraseCounts.getD block 0 = s.eraseCounts.getD block 0
  nextPage : s'.nextPage = s.nextPage
  reclaimed : s'.reclaimed.Perm s.reclaimed

/-- A collection that raises leaves the state as it was. -/
def CollectionAtomic (c : ControllerConfig) (s : PageMappingFTL) : Prop :=
  ∀ e s', s.garbageCollect c = (.error e, s') → Untouched s s'

/-- A collection that passes its workspace check has a page outside the victim's reclaimed
ones for every live LPN, or for none at all. -/
def RelocationFits (c : ControllerConfig) (s : PageMappingFTL) : Prop :=
  ∀ victim, s.victim? = some victim → (s.liveLpns victim).length ≤ s.freePages c →
    (s.queuedOutside victim).length + (c.capacityPages - s.nextPage) = 0 ∨
      (s.liveLpns victim).length
        ≤ (s.queuedOutside victim).length + (c.capacityPages - s.nextPage)

/-- Every block with an entry in `invalid_pages` has one in `valid_lpns`. -/
def Keyed (s : PageMappingFTL) : Prop :=
  ∀ block, (s.invalidPages.get? block).isSome → (s.validLpns.get? block).isSome

theorem run_keyed (c : ControllerConfig) (calls : List Call) : Keyed (run c calls) := by
  refine run_rule (P := Keyed) (fun _ h => by simp [fresh] at h) ?_ calls
  intro s call hs
  refine after_rule (P := Keyed) ?_ ?_ ?_ ?_ call hs
  · intro s lpn hs
    unfold invalidatePrevious
    split
    · exact hs
    · intro block hblock
      rw [Dict.isSome_get?_set] at hblock
      apply (Dict.isSome_get?_set ..).mpr
      exact hblock.imp_right (hs block)
  · intro s t avoid lpn p hs ha block hblock
    obtain ⟨-, hval, hinv, -⟩ := allocate_frame ha
    apply (Dict.isSome_get?_set ..).mpr
    rw [hval]
    exact Or.inr (hs block (by rw [← hinv]; exact hblock))
  · intro s victim hs block hblock
    simp only [touchVictim, Dict.get?_touch]
    split_ifs
    · rfl
    · exact hs block hblock
  · intro t victim _ ht block hblock
    simp only [erase, Dict.isSome_get?_set] at hblock ⊢
    exact hblock.imp_right (ht block)

theorem victim?_invalid (h : s.victim? = some victim) :
    (s.invalidPages.get? victim).isSome := by
  have hmem := List.argmax_mem h
  obtain ⟨e, he, rfl⟩ := List.mem_map.mp hmem
  rw [Dict.get?_eq_some_iff.mpr (List.mem_of_mem_filter he)]
  rfl

/-- Choosing the victim only fills in defaults. -/
theorem touchVictim_untouched (hkeyed : Keyed s) (h : s.victim? = some victim) :
    Untouched s (s.touchVictim victim) where
  mapping := rfl
  validLpns := if_pos (hkeyed victim (victim?_invalid h))
  invalidPages := rfl
  eraseCounts := fun _ => Dict.getD_foldl_touch _ _ _ _
  nextPage := rfl
  reclaimed := .refl _

theorem Untouched.freePages (h : Untouched s s') : s'.freePages c = s.freePages c := by
  rw [PageMappingFTL.freePages, PageMappingFTL.freePages, h.nextPage, h.reclaimed.length_eq]

/-- In every reachable state a collection is atomic exactly when its relocation fits. -/
theorem garbageCollect_atomic_iff (c : ControllerConfig) (calls : List Call) :
    CollectionAtomic c (run c calls) ↔ RelocationFits c (run c calls) := by
  have hkeyed := run_keyed c calls
  generalize run c calls = s at hkeyed ⊢
  constructor
  · intro hatomic victim hv hspace
    by_contra hnot
    rw [not_or, ← length_sparePages] at hnot
    obtain ⟨e, t, hr, hfree, -⟩ :=
      relocate_stuck (s := s.touchVictim victim) (Nat.lt_of_not_le hnot.2)
    have hspace' : ¬ (s.touchVictim victim).freePages c < (s.liveLpns victim).length :=
      Nat.not_lt.mpr hspace
    have hgc : s.garbageCollect c = (.error e, t) := by
      unfold garbageCollect
      rw [hv]
      dsimp only
      rw [if_neg hspace', hr]
    have hsame := (hatomic e t hgc).freePages (c := c)
    have hfree' : t.freePages c + (sparePages c s victim).length = s.freePages c := hfree
    omega
  · intro hfits e s' hgc
    have hcollects := garbageCollect_collects c s
    rw [hgc] at hcollects
    cases hcollects with
    | noVictim hv => exact ⟨rfl, rfl, rfl, fun _ => rfl, rfl, .refl _⟩
    | noWorkspace hv hspace => exact touchVictim_untouched hkeyed hv
    | @stuck victim e t hv hspace hr =>
      obtain ⟨hlive, -, hsame⟩ := relocate_error (nodup_liveLpns s victim) hr
      have hfits := hfits victim hv hspace
      rw [← length_sparePages] at hfits
      have hnone := hfits.resolve_right (Nat.not_le.mpr hlive)
      rw [hsame (List.length_eq_zero_iff.mp hnone)]
      exact touchVictim_untouched hkeyed hv

/-- Seven writes around a collection leave one page at the frontier and one in the block
that the next collection picks. -/
def partlyFree : List Call :=
  [.write 2, .write 4, .write 0, .write 0, .garbageCollect, .write 1, .write 1, .write 3]

/-- The collection moves LPN 1 to the last page of the frontier and raises for LPN 3. -/
theorem partlyFree_not_atomic :
    let s := run twoBlockConfig partlyFree
    let failed := s.garbageCollect twoBlockConfig
    (∃ e, failed.1 = .error e) ∧ ¬ CollectionAtomic twoBlockConfig s ∧
      s.mapping.get? 1 = some ⟨0, 0, 0, 1⟩ ∧ failed.2.mapping.get? 1 = some ⟨0, 0, 1, 3⟩ ∧
      s.nextPage = 7 ∧ failed.2.nextPage = 8 ∧ 1 ∈ failed.2.validLpns.getD (0, 0, 0) .empty ∧
      1 ∈ failed.2.validLpns.getD (0, 0, 1) .empty := by
  refine ⟨⟨_, rfl⟩, ?_, by decide, by decide, by decide, by decide, by decide, by decide⟩
  intro h
  exact absurd (h _ _ rfl).nextPage (by decide)

end PageMappingFTL
end OpenFlash.Ftl
