import OpenFlash.Ftl.LiveData

/-! The relocation loop of a collection, page by page: the pages it can take stand in a
fixed order, and the live LPNs of the victim take them one after the other. -/
namespace OpenFlash.Ftl
namespace PageMappingFTL
variable {c : ControllerConfig} {s t : PageMappingFTL} {victim : BlockKey}

/-- Reclaimed pages that do not lie in the victim, in queue order. -/
def queuedOutside (s : PageMappingFTL) (victim : BlockKey) : List PhysicalPage :=
  s.reclaimed.filter fun p => blockKey p ≠ victim

/-- Pages at and beyond the frontier. -/
def frontierPages (c : ControllerConfig) (s : PageMappingFTL) : List PhysicalPage :=
  (List.range' s.nextPage (c.capacityPages - s.nextPage)).map (physicalFromLinear c)

/-- The pages that relocation can take, in the order in which it takes them. The frontier
is not compared with the victim. -/
def sparePages (c : ControllerConfig) (s : PageMappingFTL) (victim : BlockKey) :
    List PhysicalPage := s.queuedOutside victim ++ frontierPages c s

theorem length_sparePages (c : ControllerConfig) (s : PageMappingFTL) (victim : BlockKey) :
    (sparePages c s victim).length
      = (s.queuedOutside victim).length + (c.capacityPages - s.nextPage) := by
  simp only [sparePages, frontierPages, List.length_append, List.length_map, List.length_range']

theorem length_sparePages_le (c : ControllerConfig) (s : PageMappingFTL) (victim : BlockKey) :
    (sparePages c s victim).length ≤ s.freePages c := by
  have hqueued : (s.queuedOutside victim).length ≤ s.reclaimed.length := List.length_filter_le ..
  rw [length_sparePages, freePages]
  omega

/-- Rotating the pages of the avoided block to the back keeps the order of the others. -/
theorem allocateLoop_filter (rest skipped : List PhysicalPage)
    (hskipped : ∀ p ∈ skipped, blockKey p = victim) {found : Option PhysicalPage}
    {queue : List PhysicalPage}
    (h : allocateLoop (some victim) rest.length (rest ++ skipped) = (found, queue)) :
    rest.filter (fun p => blockKey p ≠ victim)
      = found.toList ++ queue.filter fun p => blockKey p ≠ victim := by
  have hnone : ∀ pages : List PhysicalPage, (∀ p ∈ pages, blockKey p = victim) →
      pages.filter (fun p => blockKey p ≠ victim) = [] := by
    intro pages hpages
    rw [List.filter_eq_nil_iff]
    intro p hp
    simp [hpages p hp]
  induction rest generalizing skipped with
  | nil =>
    obtain ⟨rfl, rfl⟩ := Prod.mk.inj h
    exact (hnone skipped hskipped).symm
  | cons q rest ih =>
    simp only [List.length_cons, List.cons_append, allocateLoop] at h
    split_ifs at h with hq
    · obtain ⟨rfl, rfl⟩ := Prod.mk.inj h
      have hq' : blockKey q ≠ victim := fun he => hq (congrArg some he)
      rw [List.filter_cons_of_pos (by simpa using hq'), List.filter_append,
        hnone skipped hskipped, List.append_nil]
      rfl
    · have hq' : blockKey q = victim := Option.some.inj (not_not.mp hq)
      rw [List.append_assoc] at h
      rw [List.filter_cons_of_neg (by simpa using hq')]
      apply ih _ _ h
      intro p hp
      rcases List.mem_append.mp hp with hp | hp
      · exact hskipped p hp
      · rw [List.mem_singleton.mp hp]
        exact hq'

theorem frontierPages_of_lt (h : s.nextPage < c.capacityPages) :
    frontierPages c s = physicalFromLinear c s.nextPage ::
      frontierPages c { s with nextPage := s.nextPage + 1 } := by
  have hsub : c.capacityPages - s.nextPage = c.capacityPages - (s.nextPage + 1) + 1 := by omega
  simp only [frontierPages]
  rw [hsub, List.range'_succ, List.map_cons]

/-- Allocation outside the victim takes the first spare page, and fails when there is none. -/
theorem allocate_sparePages (c : ControllerConfig) (s : PageMappingFTL) (victim : BlockKey) :
    (∃ e, sparePages c s victim = [] ∧ allocate c (some victim) s = (.error e, s)) ∨
    ∃ p t, sparePages c s victim = p :: sparePages c t victim ∧
      allocate c (some victim) s = (.ok p, t) := by
  rcases hl : allocateLoop (some victim) s.reclaimed.length s.reclaimed with ⟨found, queue⟩
  have hl' : allocateLoop (some victim) s.reclaimed.length (s.reclaimed ++ [])
      = (found, queue) := by
    rw [List.append_nil]
    exact hl
  have hfilter := allocateLoop_filter s.reclaimed [] (by simp) hl'
  unfold allocate
  rw [hl]
  cases found with
  | some p =>
    refine Or.inr ⟨p, _, ?_, rfl⟩
    simp only [sparePages, queuedOutside, hfilter]
    rfl
  | none =>
    obtain ⟨hall, rfl⟩ := allocateLoop_none s.reclaimed [] hl'
    have hqueued : s.queuedOutside victim = [] := by
      rw [queuedOutside, List.filter_eq_nil_iff]
      intro p hp
      simpa using hall p hp
    dsimp only
    rw [List.nil_append]
    split_ifs with hfull
    · refine Or.inl ⟨_, ?_, rfl⟩
      rw [sparePages, hqueued, frontierPages, Nat.sub_eq_zero_of_le hfull]
      rfl
    · refine Or.inr ⟨_, _, ?_, rfl⟩
      rw [sparePages, hqueued, frontierPages_of_lt (Nat.lt_of_not_le hfull)]
      show _ = _ :: (s.queuedOutside victim ++ _)
      rw [hqueued]
      rfl

theorem nodup_liveLpns (s : PageMappingFTL) (victim : BlockKey) : (s.liveLpns victim).Nodup :=
  (List.perm_insertionSort _ _).nodup_iff.mpr (s.validLpns.getD victim .empty).nodup

/-- What relocating the LPNs `live` to the pages `pages` does. -/
structure Relocated (live : List ℤ) (pages : List PhysicalPage) (s t : PageMappingFTL) : Prop where
  kept : ∀ l, l ∉ live → t.mapping.get? l = s.mapping.get? l
  moved : ∀ (i : ℕ) l p, live[i]? = some l → pages[i]? = some p → t.mapping.get? l = some p
  listed : ∀ block l, l ∈ t.validLpns.getD block .empty ↔
    l ∈ s.validLpns.getD block .empty ∨
      ∃ (i : ℕ) (p : PhysicalPage), live[i]? = some l ∧ pages[i]? = some p ∧ blockKey p = block

theorem place_get? (s : PageMappingFTL) (lpn l : ℤ) (p : PhysicalPage) :
    (s.place lpn p).mapping.get? l = if lpn = l then some p else s.mapping.get? l :=
  s.mapping.get?_set lpn l p

/-- Moving the first LPN and then the others. -/
theorem Relocated.cons {lpn : ℤ} {rest : List ℤ} {p : PhysicalPage} {pages : List PhysicalPage}
    {u : PageMappingFTL} (hnodup : lpn ∉ rest) (hmap : u.mapping = s.mapping)
    (hval : u.validLpns = s.validLpns) (h : Relocated rest pages (u.place lpn p) t) :
    Relocated (lpn :: rest) (p :: pages) s t where
  kept := by
    intro l hl
    rw [List.mem_cons, not_or] at hl
    rw [h.kept l hl.2, place_get?, if_neg (Ne.symm hl.1), hmap]
  moved := by
    intro i l q hl hq
    cases i with
    | zero =>
      obtain rfl : lpn = l := Option.some.inj hl
      obtain rfl : p = q := Option.some.inj hq
      rw [h.kept lpn hnodup, place_get?, if_pos rfl]
    | succ i => exact h.moved i l q hl hq
  listed := by
    intro block l
    have hplace : l ∈ (u.place lpn p).validLpns.getD block .empty ↔
        (blockKey p = block ∧ l = lpn) ∨ l ∈ s.validLpns.getD block .empty := by
      rw [← hval]
      exact mem_addValid
    rw [h.listed, hplace]
    constructor
    · rintro ((⟨hb, rfl⟩ | hl) | ⟨i, q, hl, hq, hb⟩)
      · exact Or.inr ⟨0, p, rfl, rfl, hb⟩
      · exact Or.inl hl
      · exact Or.inr ⟨i + 1, q, hl, hq, hb⟩
    · rintro (hl | ⟨i, q, hl, hq, hb⟩)
      · exact Or.inl (Or.inr hl)
      · cases i with
        | zero =>
          obtain rfl : lpn = l := Option.some.inj hl
          obtain rfl : p = q := Option.some.inj hq
          exact Or.inl (Or.inl ⟨hb, rfl⟩)
        | succ i => exact Or.inr ⟨i, q, hl, hq, hb⟩

/-- With a spare page for every live LPN the relocation runs through. -/
theorem relocate_done {live : List ℤ} (hnodup : live.Nodup)
    (h : live.length ≤ (sparePages c s victim).length) :
    ∃ t, relocate c victim live s = (none, t) ∧ Relocated live (sparePages c s victim) s t := by
  induction live generalizing s with
  | nil =>
    refine ⟨s, rfl, fun l _ => rfl, ?_, ?_⟩
    · intro i l p hl
      simp at hl
    · intro block l
      simp
  | cons lpn rest ih =>
    rcases allocate_sparePages c s victim with ⟨e, hnil, -⟩ | ⟨p, u, hspare, ha⟩
    · simp [hnil] at h
    · rw [hspare, List.length_cons, List.length_cons] at h
      obtain ⟨t, hr, hrel⟩ := ih (s := u.place lpn p) hnodup.of_cons (Nat.le_of_succ_le_succ h)
      obtain ⟨hmap, hval, -, -⟩ := allocate_frame ha
      refine ⟨t, ?_, ?_⟩
      · rw [relocate, ha]
        exact hr
      · rw [hspare]
        exact hrel.cons (List.nodup_cons.mp hnodup).1 hmap hval

/-- With too few spare pages the relocation uses all of them up and raises. -/
theorem relocate_stuck {live : List ℤ} (h : (sparePages c s victim).length < live.length) :
    ∃ e t, relocate c victim live s = (some e, t) ∧
      t.freePages c + (sparePages c s victim).length = s.freePages c ∧
      (sparePages c s victim = [] → t = s) := by
  induction live generalizing s with
  | nil => exact absurd h (Nat.not_lt_zero _)
  | cons lpn rest ih =>
    rcases allocate_sparePages c s victim with ⟨e, hnil, ha⟩ | ⟨p, u, hspare, ha⟩
    · refine ⟨e, s, ?_, ?_, fun _ => rfl⟩
      · rw [relocate, ha]
      · rw [hnil]
        rfl
    · rw [hspare, List.length_cons, List.length_cons] at h
      obtain ⟨e, t, hr, hfree, -⟩ := ih (s := u.place lpn p) (Nat.lt_of_succ_lt_succ h)
      refine ⟨e, t, ?_, ?_, ?_⟩
      · rw [relocate, ha]
        exact hr
      · have hspare' : sparePages c (u.place lpn p) victim = sparePages c u victim := rfl
        have hfree' : (u.place lpn p).freePages c = u.freePages c := rfl
        rw [hspare'] at hfree
        rw [hspare, List.length_cons, ← allocate_freePages ha, ← hfree', ← hfree, Nat.add_assoc]
      · intro hnil
        rw [hspare] at hnil
        cases hnil

/-- A relocation that ran through had a spare page for every live LPN. -/
theorem relocate_ok {live : List ℤ} (hnodup : live.Nodup)
    (h : relocate c victim live s = (none, t)) :
    live.length ≤ (sparePages c s victim).length ∧
      Relocated live (sparePages c s victim) s t := by
  by_cases hroom : live.length ≤ (sparePages c s victim).length
  · obtain ⟨t', hr, hrel⟩ := relocate_done hnodup hroom
    rw [h] at hr
    obtain ⟨-, rfl⟩ := Prod.mk.inj hr
    exact ⟨hroom, hrel⟩
  · obtain ⟨e, t', hr, -⟩ := relocate_stuck (Nat.lt_of_not_le hroom)
    rw [h] at hr
    cases hr

/-- A relocation that raised had too few, and has used them up. -/
theorem relocate_error {live : List ℤ} (hnodup : live.Nodup) {e : OutOfSpaceError}
    (h : relocate c victim live s = (some e, t)) :
    (sparePages c s victim).length < live.length ∧
      t.freePages c + (sparePages c s victim).length = s.freePages c ∧
      (sparePages c s victim = [] → t = s) := by
  by_cases hroom : live.length ≤ (sparePages c s victim).length
  · obtain ⟨t', hr, -⟩ := relocate_done hnodup hroom
    rw [h] at hr
    cases hr
  · obtain ⟨e', t', hr, hused⟩ := relocate_stuck (Nat.lt_of_not_le hroom)
    rw [h] at hr
    obtain ⟨-, rfl⟩ := Prod.mk.inj hr
    exact ⟨Nat.lt_of_not_le hroom, hused⟩

end PageMappingFTL
end OpenFlash.Ftl
