import OpenFlash.Ftl.Atomicity
import OpenFlash.Ftl.Conservation

/-! Whether a collection empties the block it erases. Relocation asks the queue of
reclaimed pages for pages outside the victim, but takes frontier pages wherever they lie. -/
namespace OpenFlash.Ftl
open Support
namespace PageMappingFTL
variable {c : ControllerConfig} {s s' t : PageMappingFTL} {victim : BlockKey}

/-- The LPNs mapped into a block. -/
def mappedInto (s : PageMappingFTL) (block : BlockKey) : List ℤ :=
  (s.mapping.entries.filter fun e => blockKey e.2 = block).map Prod.fst

/-- What a collection owes its caller. -/
structure Evacuates (s s' : PageMappingFTL) (r : GarbageCollectionResult) : Prop where
  vacated : ∀ l p, s'.mapping.get? l = some p → blockKey p ≠ r.victim
  mapped : ∀ l, (s.mapping.get? l).isSome → (s'.mapping.get? l).isSome
  outside : ∀ l p, s.mapping.get? l = some p → blockKey p ≠ r.victim →
    s'.mapping.get? l = some p
  moved : r.pagesMoved = (s.mappedInto r.victim).length

/-- `valid_lpns` lists every LPN that is mapped into the block. -/
def Listed (s : PageMappingFTL) (block : BlockKey) : Prop :=
  ∀ l p, s.mapping.get? l = some p → blockKey p = block → l ∈ s.validLpns.getD block .empty

/-- None of the frontier pages that relocation takes, once the reclaimed pages outside the
victim are used up, lies in the victim. -/
def FrontierClear (c : ControllerConfig) (s : PageMappingFTL) (victim : BlockKey) : Prop :=
  ∀ i < (s.liveLpns victim).length - (s.queuedOutside victim).length,
    blockKey (physicalFromLinear c (s.nextPage + i)) ≠ victim

/-- The LPNs listed for a block are mapped into it. -/
def ListedSound (s : PageMappingFTL) : Prop :=
  ∀ block l, l ∈ s.validLpns.getD block .empty →
    ∃ p, s.mapping.get? l = some p ∧ blockKey p = block

theorem mem_mappedInto {block : BlockKey} {l : ℤ} :
    l ∈ s.mappedInto block ↔ ∃ p, s.mapping.get? l = some p ∧ blockKey p = block := by
  simp only [mappedInto, List.mem_map, List.mem_filter, decide_eq_true_eq]
  constructor
  · rintro ⟨⟨l', p⟩, ⟨he, hb⟩, rfl⟩
    exact ⟨p, Dict.get?_eq_some_iff.mpr he, hb⟩
  · rintro ⟨p, hl, hb⟩
    exact ⟨(l, p), ⟨Dict.get?_eq_some_iff.mp hl, hb⟩, rfl⟩

theorem nodup_mappedInto (s : PageMappingFTL) (block : BlockKey) : (s.mappedInto block).Nodup :=
  s.mapping.nodup.sublist (List.filter_sublist.map _)

theorem mem_liveLpns {l : ℤ} : l ∈ s.liveLpns victim ↔ l ∈ s.validLpns.getD victim .empty :=
  PySet.mem_sorted

/-- A successful collection with the pages its live LPNs went to. -/
theorem garbageCollect_relocated {r : GarbageCollectionResult}
    (h : s.garbageCollect c = (.ok r, s')) :
    s.victim? = some r.victim ∧ r.pagesMoved = (s.liveLpns r.victim).length ∧
      (s.liveLpns r.victim).length ≤ (sparePages c s r.victim).length ∧
      ∃ t, s' = t.erase c r.victim ∧
        Relocated (s.liveLpns r.victim) (sparePages c s r.victim) s t := by
  have hcollects := garbageCollect_collects c s
  rw [h] at hcollects
  cases hcollects with
  | @done victim t hv hspace hr =>
    obtain ⟨hroom, hrel⟩ := relocate_ok (nodup_liveLpns s victim) hr
    refine ⟨hv, rfl, hroom, t, rfl, hrel.kept, hrel.moved, ?_⟩
    intro block l
    rw [hrel.listed]
    simp only [touchVictim, Dict.getD_touch]
    rfl

theorem getElem?_frontierPages (c : ControllerConfig) (s : PageMappingFTL) (i : ℕ) :
    (frontierPages c s)[i]? =
      if i < c.capacityPages - s.nextPage then some (physicalFromLinear c (s.nextPage + i))
      else none := by
  split_ifs with hi
  · rw [frontierPages, List.getElem?_map, List.getElem?_range' hi, Option.map_some, Nat.one_mul]
  · apply List.getElem?_eq_none
    rw [frontierPages, List.length_map, List.length_range']
    omega

/-- Only the frontier can hand out pages of the victim. -/
theorem frontierClear_iff (hroom : (s.liveLpns victim).length ≤ (sparePages c s victim).length) :
    FrontierClear c s victim ↔ ∀ (i : ℕ) p, i < (s.liveLpns victim).length →
      (sparePages c s victim)[i]? = some p → blockKey p ≠ victim := by
  rw [length_sparePages] at hroom
  constructor
  · intro hclear i p hi hp
    rw [sparePages, List.getElem?_append] at hp
    split_ifs at hp with hqueued
    · have hmem := List.mem_of_getElem? hp
      simpa [queuedOutside] using (List.mem_filter.mp hmem).2
    · rw [getElem?_frontierPages, if_pos (by omega)] at hp
      rw [← Option.some.inj hp]
      exact hclear _ (by omega)
  · intro hspare i hi
    refine hspare ((s.queuedOutside victim).length + i) _ (by omega) ?_
    rw [sparePages, List.getElem?_append_right (by omega), Nat.add_sub_cancel_left,
      getElem?_frontierPages, if_pos (by omega)]

section Collection
variable {r : GarbageCollectionResult}

/-- Where a successful collection leaves the LPNs it lists as live. -/
theorem moved_of_mem {live : List ℤ} {pages : List PhysicalPage} (h : Relocated live pages s t)
    (hroom : live.length ≤ pages.length) {l : ℤ} (hl : l ∈ live) :
    ∃ (i : ℕ) (p : PhysicalPage), i < live.length ∧ live[i]? = some l ∧ pages[i]? = some p ∧
      t.mapping.get? l = some p := by
  obtain ⟨i, hi⟩ := List.mem_iff_getElem?.mp hl
  have hlt := (List.getElem?_eq_some_iff.mp hi).1
  have hp : pages[i]? = some pages[i] := List.getElem?_eq_getElem _
  exact ⟨i, pages[i], hlt, hi, hp, h.moved i l _ hi hp⟩

/-- An LPN mapped outside the victim is not among those that move. -/
theorem notMem_liveLpns (hsound : ListedSound s) {l : ℤ} {p : PhysicalPage}
    (hl : s.mapping.get? l = some p) (hp : blockKey p ≠ victim) : l ∉ s.liveLpns victim := by
  intro hmem
  obtain ⟨q, hq, hblock⟩ := hsound victim l (mem_liveLpns.mp hmem)
  rw [hl, Option.some.injEq] at hq
  rw [hq] at hp
  exact hp hblock

theorem evacuates_of_listed (hsound : ListedSound s) (h : s.garbageCollect c = (.ok r, s'))
    (hlisted : Listed s r.victim) (hclear : FrontierClear c s r.victim) : Evacuates s s' r := by
  obtain ⟨-, hmoved, hroom, t, rfl, hrel⟩ := garbageCollect_relocated h
  rw [frontierClear_iff hroom] at hclear
  constructor
  · intro l p hl
    by_cases hmem : l ∈ s.liveLpns r.victim
    · obtain ⟨i, q, hi, -, hq, hl'⟩ := moved_of_mem hrel hroom hmem
      obtain rfl : p = q := Option.some.inj (hl.symm.trans hl')
      exact hclear i p hi hq
    · intro hp
      have hold : s.mapping.get? l = some p := (hrel.kept l hmem).symm.trans hl
      exact hmem (mem_liveLpns.mpr (hlisted l p hold hp))
  · intro l hl
    show (t.mapping.get? l).isSome
    by_cases hmem : l ∈ s.liveLpns r.victim
    · obtain ⟨-, p, -, -, -, hl'⟩ := moved_of_mem hrel hroom hmem
      rw [hl']
      rfl
    · rw [hrel.kept l hmem]
      exact hl
  · intro l p hl hp
    exact (hrel.kept l (notMem_liveLpns hsound hl hp)).trans hl
  · rw [hmoved]
    apply List.Perm.length_eq
    rw [List.perm_ext_iff_of_nodup (nodup_liveLpns s _) (nodup_mappedInto s _)]
    intro l
    rw [mem_liveLpns, mem_mappedInto]
    constructor
    · exact hsound r.victim l
    · rintro ⟨p, hl, hp⟩
      exact hlisted l p hl hp

theorem listed_of_evacuates (h : s.garbageCollect c = (.ok r, s')) (hevac : Evacuates s s' r) :
    Listed s r.victim ∧ FrontierClear c s r.victim := by
  obtain ⟨-, -, hroom, t, rfl, hrel⟩ := garbageCollect_relocated h
  rw [frontierClear_iff hroom]
  constructor
  · intro l p hl hp
    by_contra hnot
    have hkept := hrel.kept l fun hmem => hnot (mem_liveLpns.mp hmem)
    exact hevac.vacated l p (hkept.trans hl) hp
  · intro i p hi hp
    exact hevac.vacated _ p (hrel.moved i _ p (List.getElem?_eq_getElem hi) hp)

end Collection

/-- After the first half of a write its LPN is listed nowhere. -/
theorem invalidatePrevious_unlisted (hsound : ListedSound s) {lpn l : ℤ} {block : BlockKey}
    (h : l ∈ (s.invalidatePrevious lpn).validLpns.getD block .empty) :
    l ≠ lpn ∧ l ∈ s.validLpns.getD block .empty := by
  unfold invalidatePrevious at h
  cases hprevious : s.mapping.get? lpn with
  | none =>
    simp only [hprevious] at h
    refine ⟨?_, h⟩
    rintro rfl
    obtain ⟨p, hp, -⟩ := hsound block l h
    rw [hprevious] at hp
    cases hp
  | some previous =>
    simp only [hprevious, discardValid, Dict.getD_set] at h
    split_ifs at h with hb
    · rw [← hb]
      exact PySet.mem_discard.mp h
    · refine ⟨?_, h⟩
      rintro rfl
      obtain ⟨p, hp, hblock⟩ := hsound block l h
      obtain rfl : previous = p := Option.some.inj (hprevious.symm.trans hp)
      exact hb hblock

theorem after_listedSound {call : Call} (hok : Succeeds c s call) (hsound : ListedSound s) :
    ListedSound (after c s call) := by
  cases call with
  | write lpn =>
    obtain ⟨p, hp⟩ := hok
    have hw : s.write c lpn = (.ok p, (s.write c lpn).2) := Prod.ext hp rfl
    obtain ⟨t, ha, heq⟩ := write_ok hw
    obtain ⟨hmap, hval, -, -⟩ := allocate_frame ha
    show ListedSound (s.write c lpn).2
    rw [heq]
    intro block l hl
    rw [place_get?]
    rcases mem_addValid.mp hl with ⟨hb, rfl⟩ | hl
    · exact ⟨p, if_pos rfl, hb⟩
    · have hl' : l ∈ (s.invalidatePrevious lpn).validLpns.getD block .empty := by
        rw [← hval]
        exact hl
      obtain ⟨hne, hold⟩ := invalidatePrevious_unlisted hsound hl'
      rw [if_neg (Ne.symm hne), hmap, (s.invalidatePrevious_frame lpn).1]
      exact hsound block l hold
  | garbageCollect =>
    obtain ⟨r, hr⟩ := hok
    have hgc : s.garbageCollect c = (.ok r, (s.garbageCollect c).2) := Prod.ext hr rfl
    obtain ⟨-, -, -, t, heq, hrel⟩ := garbageCollect_relocated hgc
    show ListedSound (s.garbageCollect c).2
    rw [heq]
    intro block l hl
    show ∃ p, t.mapping.get? l = some p ∧ blockKey p = block
    simp only [erase, Dict.getD_set] at hl
    split_ifs at hl with hb
    · exact absurd hl List.not_mem_nil
    · rcases (hrel.listed block l).mp hl with hold | ⟨i, p, hi, hp, hblock⟩
      · obtain ⟨p, hp, hblock⟩ := hsound block l hold
        have hout : blockKey p ≠ r.victim := by
          rw [hblock]
          exact Ne.symm hb
        exact ⟨p, (hrel.kept l (notMem_liveLpns hsound hp hout)).trans hp, hblock⟩
      · exact ⟨p, hrel.moved i l p hi hp, hblock⟩

/-- The frontier is clear of the victim of a collection. -/
def CollectsClear (c : ControllerConfig) (s : PageMappingFTL) : Call → Prop
  | .write _ => True
  | .garbageCollect => ∀ victim, s.victim? = some victim → FrontierClear c s victim

/-- A successful call with a clear frontier keeps the lists complete. -/
theorem after_listed {call : Call} (hok : Succeeds c s call) (hclear : CollectsClear c s call)
    (hsound : ListedSound s) (hlisted : ∀ block, Listed s block) (block : BlockKey) :
    Listed (after c s call) block := by
  cases call with
  | write lpn =>
    obtain ⟨p, hp⟩ := hok
    have hw : s.write c lpn = (.ok p, (s.write c lpn).2) := Prod.ext hp rfl
    obtain ⟨t, ha, heq⟩ := write_ok hw
    obtain ⟨hmap, hval, -, -⟩ := allocate_frame ha
    show Listed (s.write c lpn).2 block
    rw [heq]
    intro l q hl hq
    rw [place_get?] at hl
    apply mem_addValid.mpr
    split_ifs at hl with hlpn
    · rw [Option.some.inj hl]
      exact Or.inl ⟨hq, hlpn.symm⟩
    · rw [hmap, (s.invalidatePrevious_frame lpn).1] at hl
      right
      rw [hval]
      exact invalidatePrevious_listed (Ne.symm hlpn) (hlisted block l q hl hq)
  | garbageCollect =>
    obtain ⟨r, hr⟩ := hok
    have hgc : s.garbageCollect c = (.ok r, (s.garbageCollect c).2) := Prod.ext hr rfl
    obtain ⟨hv, -, hroom, t, heq, hrel⟩ := garbageCollect_relocated hgc
    have hevac := evacuates_of_listed hsound hgc (hlisted r.victim) (hclear r.victim hv)
    show Listed (s.garbageCollect c).2 block
    intro l p hl hp
    have hne : r.victim ≠ block := by
      rw [← hp]
      exact (hevac.vacated l p hl).symm
    rw [heq] at hl ⊢
    have hl' : t.mapping.get? l = some p := hl
    simp only [erase, Dict.getD_set, if_neg hne]
    rw [hrel.listed]
    by_cases hmem : l ∈ s.liveLpns r.victim
    · obtain ⟨i, q, -, hi, hq, hmoved⟩ := moved_of_mem hrel hroom hmem
      obtain rfl : p = q := Option.some.inj (hl'.symm.trans hmoved)
      exact Or.inr ⟨i, p, hi, hq, hp⟩
    · rw [hrel.kept l hmem] at hl'
      exact Or.inl (hlisted block l p hl' hp)

theorem run_listedSound (c : ControllerConfig) (calls : List Call)
    (hok : Along (after c) (Succeeds c) fresh calls) : ListedSound (run c calls) := by
  have hstep : ∀ s call, ListedSound s → Succeeds c s call → ListedSound (after c s call) :=
    fun _ _ hs hcall => after_listedSound hcall hs
  have hfresh : ListedSound fresh := fun _ _ h => absurd h List.not_mem_nil
  have h := Along.invariant hstep hfresh hok calls.length
  rwa [List.take_length] at h

theorem run_listed (c : ControllerConfig) (calls : List Call)
    (hok : Along (after c) (Succeeds c) fresh calls)
    (hclear : Along (after c) (CollectsClear c) fresh calls) :
    ∀ block, Listed (run c calls) block := by
  have hstep : ∀ s call, (ListedSound s ∧ ∀ block, Listed s block) →
      Succeeds c s call ∧ CollectsClear c s call →
      ListedSound (after c s call) ∧ ∀ block, Listed (after c s call) block :=
    fun _ _ hs hcall => ⟨after_listedSound hcall.1 hs.1, after_listed hcall.1 hcall.2 hs.1 hs.2⟩
  have hfresh : ListedSound fresh ∧ ∀ block, Listed fresh block := by
    refine ⟨fun _ _ h => absurd h List.not_mem_nil, fun block l p hl => ?_⟩
    simp [fresh] at hl
  have h := Along.invariant hstep hfresh (hok.and hclear) calls.length
  rw [List.take_length] at h
  exact h.2

/-- The collection that the state calls for finds its victim completely listed and the
frontier clear of it. -/
def EvacuationReady (c : ControllerConfig) (s : PageMappingFTL) : Prop :=
  ∀ victim, s.victim? = some victim → Listed s victim ∧ FrontierClear c s victim

/-- After every run of successful calls a collection that returns has evacuated its victim
exactly when the state was ready for it. The lists are complete as long as every earlier
collection found a clear frontier. -/
theorem garbageCollect_evacuates_iff (c : ControllerConfig) (calls : List Call)
    (hok : Along (after c) (Succeeds c) fresh calls) :
    (∀ r s', (run c calls).garbageCollect c = (.ok r, s') →
      (Evacuates (run c calls) s' r ↔ EvacuationReady c (run c calls))) ∧
    (Along (after c) (CollectsClear c) fresh calls → ∀ block, Listed (run c calls) block) := by
  refine ⟨fun r s' hgc => ?_, run_listed c calls hok⟩
  have hv := (garbageCollect_relocated hgc).1
  constructor
  · intro hevac victim hv'
    obtain rfl : r.victim = victim := Option.some.inj (hv.symm.trans hv')
    exact listed_of_evacuates hgc hevac
  · intro hready
    obtain ⟨hlisted, hclear⟩ := hready r.victim hv
    exact evacuates_of_listed (run_listedSound c calls hok) hgc hlisted hclear

def overwriteThenFill : List Call := [.write 0, .write 1, .write 0, .write 2]

/-- The collection of a used-up block with the frontier beyond it. -/
theorem overwriteThenFill_evacuates :
    Along (after threeBlockConfig) (Succeeds threeBlockConfig) fresh overwriteThenFill ∧
      ∃ r s', (run threeBlockConfig overwriteThenFill).garbageCollect threeBlockConfig
          = (.ok r, s') ∧ r.pagesMoved = 1 ∧
        Evacuates (run threeBlockConfig overwriteThenFill) s' r := by
  have hok : Along (after threeBlockConfig) (Succeeds threeBlockConfig) fresh
      overwriteThenFill := ⟨⟨_, rfl⟩, ⟨_, rfl⟩, ⟨_, rfl⟩, ⟨_, rfl⟩, trivial⟩
  obtain ⟨hevac, hlisted⟩ := garbageCollect_evacuates_iff threeBlockConfig overwriteThenFill hok
  refine ⟨hok, _, _, rfl, rfl, (hevac _ _ rfl).mpr ?_⟩
  intro victim hv
  obtain rfl : (0, 0, 0) = victim := Option.some.inj hv
  refine ⟨hlisted ⟨trivial, trivial, trivial, trivial, trivial⟩ _, ?_⟩
  intro i hi
  obtain rfl : i = 0 := Nat.lt_one_iff.mp hi
  decide

/-- The frontier still stands in the block that is collected, so LPN 0 moves to another page
of it. -/
theorem overwritten_not_evacuated :
    Along (after twoBlockConfig) (Succeeds twoBlockConfig) fresh [.write 0, .write 0] ∧
      ∃ r s', (run twoBlockConfig [.write 0, .write 0]).garbageCollect twoBlockConfig
          = (.ok r, s') ∧ r.victim = (0, 0, 0) ∧ s'.mapping.get? 0 = some ⟨0, 0, 0, 2⟩ ∧
        ¬ Evacuates (run twoBlockConfig [.write 0, .write 0]) s' r := by
  refine ⟨⟨⟨_, rfl⟩, ⟨_, rfl⟩, trivial⟩, _, _, rfl, by decide, by decide, fun h => ?_⟩
  exact h.vacated 0 ⟨0, 0, 0, 2⟩ (by decide) (by decide)

end PageMappingFTL
end OpenFlash.Ftl
