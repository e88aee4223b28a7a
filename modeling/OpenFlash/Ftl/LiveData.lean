import OpenFlash.Ftl.Outcomes

/-! Live-data safety of the page mapping. The free pool loses track of its pages in
two ways: a write that runs out of space has already invalidated the page it still
maps, and a collection returns every page of its victim although some of them may
never have left the pool. Runs that avoid both keep every mapped page private. -/
namespace OpenFlash.Ftl
namespace PageMappingFTL
variable {c : ControllerConfig} {s s' : PageMappingFTL}

/-- Distinct LPNs map to distinct pages, none of which can be handed out again. -/
def LiveDataSafe (c : ControllerConfig) (s : PageMappingFTL) : Prop :=
  (∀ l l' p, s.mapping.get? l = some p → s.mapping.get? l' = some p → l = l') ∧
    ∀ l p, s.mapping.get? l = some p → ¬ Available c s p

/-- The state before a call keeps it away from both defects: an overwrite finds a
free page, and a collection that passes its workspace check erases a victim none of
whose pages is still in the pool. -/
def CallSafe (c : ControllerConfig) (s : PageMappingFTL) : Call → Prop
  | .write lpn => s.mapping.get? lpn = none ∨ 0 < s.freePages c
  | .garbageCollect => ∀ victim, s.victim? = some victim →
      (s.liveLpns victim).length ≤ s.freePages c →
        ∀ p, blockKey p = victim → ¬ Available c s p

def RunSafe (c : ControllerConfig) : PageMappingFTL → List Call → Prop
  | _, [] => True
  | s, call :: calls => CallSafe c s call ∧ RunSafe c (after c s call) calls

/-- What safe calls preserve: beyond live-data safety, the pool is duplicate-free and
`valid_lpns` lists every mapped LPN under the block of its page. -/
structure LiveInv (c : ControllerConfig) (s : PageMappingFTL) : Prop where
  safe : LiveDataSafe c s
  pool : PoolDistinct c s
  listed : ∀ l p, s.mapping.get? l = some p → l ∈ s.validLpns.getD (blockKey p) .empty

theorem fresh_liveInv (c : ControllerConfig) : LiveInv c fresh := by
  refine ⟨⟨?_, ?_⟩, ⟨List.nodup_nil, ?_⟩, ?_⟩
  · intro l l' p h
    simp [fresh] at h
  · intro l p h
    simp [fresh] at h
  · intro p hp
    simp [fresh] at hp
  · intro l p h
    simp [fresh] at h

theorem mem_addValid {block block' : BlockKey} {lpn l : ℤ} :
    l ∈ (s.addValid block lpn).validLpns.getD block' .empty ↔
      (block = block' ∧ l = lpn) ∨ l ∈ s.validLpns.getD block' .empty := by
  simp only [addValid, Support.Dict.getD_set]
  split_ifs with h
  · subst h
    simp
  · simp [h]

/-- Placing an LPN on a page just taken from the pool keeps the invariant for every
LPN, provided the other LPNs were already listed. -/
theorem place_liveInv {lpn : ℤ} {p : PhysicalPage} (hpool : PoolDistinct c s)
    (hinj : ∀ l l' q, s.mapping.get? l = some q → s.mapping.get? l' = some q → l = l')
    (hbusy : ∀ l q, s.mapping.get? l = some q → ¬ Available c s q ∧ q ≠ p)
    (hp : ¬ Available c s p)
    (hlisted : ∀ l q, l ≠ lpn → s.mapping.get? l = some q →
      l ∈ s.validLpns.getD (blockKey q) .empty) :
    LiveInv c (s.place lpn p) := by
  have hget : ∀ l, (s.place lpn p).mapping.get? l =
      if lpn = l then some p else s.mapping.get? l := fun l => s.mapping.get?_set lpn l p
  refine ⟨⟨?_, ?_⟩, ⟨hpool.nodup, hpool.apart⟩, ?_⟩
  · intro l l' q hl hl'
    rw [hget] at hl hl'
    split_ifs at hl hl' with h h' h'
    · exact h.symm.trans h'
    · exact absurd (Option.some.inj hl).symm (hbusy l' q hl').2
    · exact absurd (Option.some.inj hl').symm (hbusy l q hl).2
    · exact hinj l l' q hl hl'
  · intro l q hl
    rw [hget] at hl
    split_ifs at hl with h
    · rw [← Option.some.inj hl]
      exact hp
    · exact (hbusy l q hl).1
  · intro l q hl
    rw [hget] at hl
    apply mem_addValid.mpr
    split_ifs at hl with h
    · exact Or.inl ⟨by rw [Option.some.inj hl], h.symm⟩
    · exact Or.inr (hlisted l q (Ne.symm h) hl)

/-- One relocation or one successful write: allocate, then place. -/
theorem allocate_place_liveInv {avoid : Option BlockKey} {lpn : ℤ} {p : PhysicalPage}
    (hsafe : LiveDataSafe c s) (hpool : PoolDistinct c s)
    (hlisted : ∀ l q, l ≠ lpn → s.mapping.get? l = some q →
      l ∈ s.validLpns.getD (blockKey q) .empty)
    (h : allocate c avoid s = (.ok p, s')) : LiveInv c (s'.place lpn p) := by
  obtain ⟨hav, hiff, hpool'⟩ := allocate_ok_pool hpool h
  obtain ⟨hmap, hval, -, -⟩ := allocate_frame h
  apply place_liveInv hpool'
  · rw [hmap]
    exact hsafe.1
  · intro l q hl
    rw [hmap] at hl
    exact ⟨fun hq => hsafe.2 l q hl ((hiff q).mp hq).1, fun he => hsafe.2 l q hl (he ▸ hav)⟩
  · exact fun hq => ((hiff p).mp hq).2 rfl
  · rw [hmap, hval]
    exact hlisted

theorem invalidatePrevious_listed {lpn l : ℤ} {block : BlockKey} (hl : l ≠ lpn)
    (h : l ∈ s.validLpns.getD block .empty) :
    l ∈ (s.invalidatePrevious lpn).validLpns.getD block .empty := by
  unfold invalidatePrevious
  split
  · exact h
  · simp only [discardValid, Support.Dict.getD_set]
    split_ifs with hb
    · subst hb
      exact Support.PySet.mem_discard.mpr ⟨hl, h⟩
    · exact h

theorem available_congr (hr : s'.reclaimed = s.reclaimed) (hn : s'.nextPage = s.nextPage)
    (p : PhysicalPage) : Available c s' p ↔ Available c s p := by
  unfold Available
  rw [hr, hn]

theorem write_liveInv {lpn : ℤ} (hi : LiveInv c s) (hsafe : CallSafe c s (.write lpn)) :
    LiveInv c (s.write c lpn).2 := by
  obtain ⟨hmap, hrec, hnext⟩ := s.invalidatePrevious_frame lpn
  have hav : ∀ p, Available c (s.invalidatePrevious lpn) p ↔ Available c s p :=
    available_congr hrec hnext
  unfold write
  rcases hr : allocate c none (s.invalidatePrevious lpn) with ⟨r, t⟩
  cases r with
  | ok p =>
    simp only
    apply allocate_place_liveInv ?_ ?_ ?_ hr
    · refine ⟨by rw [hmap]; exact hi.safe.1, ?_⟩
      intro l q hl
      rw [hmap] at hl
      rw [hav]
      exact hi.safe.2 l q hl
    · exact ⟨by rw [hrec]; exact hi.pool.nodup, by rw [hrec, hnext]; exact hi.pool.apart⟩
    · intro l q hne hl
      rw [hmap] at hl
      exact invalidatePrevious_listed hne (hi.listed l q hl)
  | error e =>
    simp only
    have hfree : ¬ 0 < (s.invalidatePrevious lpn).freePages c := by
      intro hf
      obtain ⟨p, hp⟩ := allocate_none_ok hf
      rw [hr] at hp
      simp at hp
    have hunmapped : s.mapping.get? lpn = none := by
      rcases hsafe with h | h
      · exact h
      · exact absurd (by simpa only [freePages, hrec, hnext] using h) hfree
    rw [(allocate_error hr).1]
    simpa only [invalidatePrevious, hunmapped] using hi

/-- Relocation keeps the invariant even when it stops early. It never lands in a
victim none of whose pages was in the pool, so a finished relocation evacuates it. -/
theorem relocate_liveInv {victim : BlockKey} (live : List ℤ) (hi : LiveInv c s)
    (hvictim : ∀ p, blockKey p = victim → ¬ Available c s p) :
    LiveInv c (relocate c victim live s).2 ∧
      (∀ p, blockKey p = victim → ¬ Available c (relocate c victim live s).2 p) ∧
      ((relocate c victim live s).1 = none →
        ∀ l p, (relocate c victim live s).2.mapping.get? l = some p → blockKey p = victim →
          l ∉ live ∧ s.mapping.get? l = some p) := by
  induction live generalizing s with
  | nil => exact ⟨hi, hvictim, fun _ l p hl _ => ⟨List.not_mem_nil, hl⟩⟩
  | cons lpn rest ih =>
    simp only [relocate]
    rcases hr : allocate c (some victim) s with ⟨r, t⟩
    cases r with
    | error e =>
      simp only [(allocate_error hr).1]
      exact ⟨hi, hvictim, fun h => by simp at h⟩
    | ok p =>
      simp only
      obtain ⟨hav, hiff, -⟩ := allocate_ok_pool hi.pool hr
      have hstep : LiveInv c (t.place lpn p) :=
        allocate_place_liveInv hi.safe hi.pool (fun l q _ => hi.listed l q) hr
      have hvictim' : ∀ q, blockKey q = victim → ¬ Available c (t.place lpn p) q :=
        fun q hq ha => hvictim q hq ((hiff q).mp ha).1
      obtain ⟨hinv, hout, hdone⟩ := ih hstep hvictim'
      refine ⟨hinv, hout, fun hnone l q hl hq => ?_⟩
      obtain ⟨hnot, hmapped⟩ := hdone hnone l q hl hq
      have hget : (t.place lpn p).mapping.get? l =
          if lpn = l then some p else t.mapping.get? l := t.mapping.get?_set lpn l p
      rw [hget, (allocate_frame hr).1] at hmapped
      split_ifs at hmapped with he
      · rw [← Option.some.inj hmapped] at hq
        exact absurd hav (hvictim p hq)
      · exact ⟨by simp [Ne.symm he, hnot], hmapped⟩

theorem mem_blockPages {block : BlockKey} {p : PhysicalPage} (h : p ∈ blockPages c block) :
    blockKey p = block := by
  obtain ⟨page, -, rfl⟩ := List.mem_map.mp h
  rfl

theorem nodup_blockPages (c : ControllerConfig) (block : BlockKey) :
    (blockPages c block).Nodup := by
  apply List.nodup_range.map
  intro i j h
  simpa using h

/-- Erasing an evacuated block whose pages had all left the pool. -/
theorem erase_liveInv {victim : BlockKey} (hi : LiveInv c s)
    (hvictim : ∀ p, blockKey p = victim → ¬ Available c s p)
    (hempty : ∀ l p, s.mapping.get? l = some p → blockKey p ≠ victim) :
    LiveInv c (s.erase c victim) := by
  have hsplit : ∀ p, Available c (s.erase c victim) p → Available c s p ∨ blockKey p = victim := by
    rintro p (hp | hp)
    · rcases List.mem_append.mp hp with hp | hp
      · exact Or.inl (Or.inl hp)
      · exact Or.inr (mem_blockPages hp)
    · exact Or.inl (Or.inr hp)
  refine ⟨⟨hi.safe.1, ?_⟩, ⟨?_, ?_⟩, ?_⟩
  · intro l p hl hp
    rcases hsplit p hp with h | h
    · exact hi.safe.2 l p hl h
    · exact hempty l p hl h
  · apply hi.pool.nodup.append (nodup_blockPages c victim)
    intro p hp hp'
    exact hvictim p (mem_blockPages hp') (Or.inl hp)
  · intro p hp i hi' hic he
    rcases List.mem_append.mp hp with hp | hp
    · exact hi.pool.apart p hp i hi' hic he
    · exact hvictim p (mem_blockPages hp) (Or.inr ⟨i, hi', hic, he⟩)
  · intro l p hl
    simp only [erase, Support.Dict.getD_set]
    rw [if_neg (Ne.symm (hempty l p hl))]
    exact hi.listed l p hl

theorem touchVictim_liveInv (hi : LiveInv c s) (victim : BlockKey) :
    LiveInv c (s.touchVictim victim) := by
  refine ⟨⟨hi.safe.1, hi.safe.2⟩, ⟨hi.pool.nodup, hi.pool.apart⟩, ?_⟩
  intro l p hl
  simp only [touchVictim, Support.Dict.getD_touch]
  exact hi.listed l p hl

theorem garbageCollect_liveInv (hi : LiveInv c s) (hsafe : CallSafe c s .garbageCollect) :
    LiveInv c (s.garbageCollect c).2 := by
  unfold garbageCollect
  cases hv : s.victim? with
  | none => exact hi
  | some victim =>
    have hi' := touchVictim_liveInv hi victim
    simp only
    split_ifs with hspace
    · exact hi'
    · have hvictim : ∀ p, blockKey p = victim → ¬ Available c (s.touchVictim victim) p :=
        hsafe victim hv (by simpa [freePages, touchVictim] using hspace)
      obtain ⟨hinv, hout, hdone⟩ := relocate_liveInv (s.liveLpns victim) hi' hvictim
      rcases hr : relocate c victim (s.liveLpns victim) (s.touchVictim victim) with ⟨r, t⟩
      rw [hr] at hinv hout hdone
      cases r with
      | some e => exact hinv
      | none =>
        apply erase_liveInv hinv hout
        intro l p hl hp
        obtain ⟨hnot, hmapped⟩ := hdone rfl l p hl hp
        apply hnot
        rw [← hp]
        exact Support.PySet.mem_sorted.mpr (hi.listed l p hmapped)

theorem after_liveInv {call : Call} (hi : LiveInv c s) (hsafe : CallSafe c s call) :
    LiveInv c (after c s call) := by
  cases call with
  | write lpn => exact write_liveInv hi hsafe
  | garbageCollect => exact garbageCollect_liveInv hi hsafe

theorem foldl_liveInv (calls : List Call) (hi : LiveInv c s) (hsafe : RunSafe c s calls) :
    LiveInv c (calls.foldl (after c) s) := by
  induction calls generalizing s with
  | nil => exact hi
  | cons call calls ih => exact ih (after_liveInv hi hsafe.1) hsafe.2

/-- Live data stays private after every run of calls that each find the pool fit for them. -/
theorem run_liveDataSafe (c : ControllerConfig) (calls : List Call)
    (hsafe : RunSafe c fresh calls) : LiveDataSafe c (run c calls) :=
  (foldl_liveInv calls (fresh_liveInv c) hsafe).safe

def threeBlockConfig : ControllerConfig :=
  { channels := 1, diesPerChannel := 1, blocksPerDie := 3, pagesPerBlock := 2 }

def collectAfterOverwrite : List Call := [.write 0, .write 1, .write 0, .write 2, .garbageCollect]

/-- An overwrite and a collection of the block it left behind, with the frontier outside it. -/
theorem collectAfterOverwrite_liveDataSafe :
    RunSafe threeBlockConfig fresh collectAfterOverwrite ∧
      LiveDataSafe threeBlockConfig (run threeBlockConfig collectAfterOverwrite) := by
  have hsafe : RunSafe threeBlockConfig fresh collectAfterOverwrite := by
    refine ⟨Or.inl rfl, Or.inl rfl, Or.inr (by decide), Or.inl rfl, ?_, trivial⟩
    intro victim hv _ p hp hav
    obtain rfl : (0, 0, 0) = victim := Option.some.inj hv
    rcases hav with hq | ⟨i, hi, hic, rfl⟩
    · exact List.not_mem_nil hq
    · change 4 ≤ i at hi
      change i < 6 at hic
      obtain rfl | rfl : i = 4 ∨ i = 5 := by omega
      · exact absurd hp (by decide)
      · exact absurd hp (by decide)
  exact ⟨hsafe, run_liveDataSafe _ _ hsafe⟩

def twoBlockConfig : ControllerConfig :=
  { channels := 1, diesPerChannel := 1, blocksPerDie := 2, pagesPerBlock := 4 }

def onePageConfig : ControllerConfig :=
  { channels := 1, diesPerChannel := 1, blocksPerDie := 1, pagesPerBlock := 1 }

/-- Collecting the block the frontier stands in relocates into the victim and then
frees the new copy. After a write that ran out of space, a collection frees the page
the LPN still maps and the next write hands it to a second LPN. -/
theorem run_not_liveDataSafe :
    ¬ LiveDataSafe twoBlockConfig (run twoBlockConfig [.write 0, .write 0, .garbageCollect]) ∧
      ¬ LiveDataSafe onePageConfig
        (run onePageConfig [.write 0, .write 0, .garbageCollect, .write 1]) := by
  constructor
  · intro h
    exact h.2 0 ⟨0, 0, 0, 2⟩ (by decide) (Or.inl (by decide))
  · intro h
    exact absurd (h.1 0 1 ⟨0, 0, 0, 0⟩ (by decide) (by decide)) (by decide)

end PageMappingFTL
end OpenFlash.Ftl
