import Mathlib.Algebra.Order.BigOperators.Group.List
import OpenFlash.Ftl.LiveData
import OpenFlash.Support.DictOrder
import OpenFlash.Support.Runs

/-! The page balance of the mapping: free, mapped and invalid pages. A collection credits
the pool with a whole block, so the balance survives exactly the collections whose victim
had no page left to write. -/
namespace OpenFlash.Ftl
open Support
namespace PageMappingFTL
variable {c : ControllerConfig} {s s' t : PageMappingFTL}

/-- Free pages, mapped LPNs and invalid pages together. -/
def balance (c : ControllerConfig) (s : PageMappingFTL) : ℤ :=
  s.freePages c + s.mapping.size + s.invalidPages.total

/-- Every page of the flash is counted exactly once. -/
def PagesConserved (c : ControllerConfig) (s : PageMappingFTL) : Prop :=
  balance c s = c.capacityPages ∧ s.freePages c ≤ c.capacityPages

/-- The call returns. -/
def Succeeds (c : ControllerConfig) (s : PageMappingFTL) : Call → Prop
  | .write lpn => ∃ p, (s.write c lpn).1 = .ok p
  | .garbageCollect => ∃ r, (s.garbageCollect c).1 = .ok r

/-- A collected block is used up: its invalid pages and live LPNs fill it. -/
def VictimFull (c : ControllerConfig) (s : PageMappingFTL) : Call → Prop
  | .write _ => True
  | .garbageCollect => ∀ victim, s.victim? = some victim →
      s.invalidPages.getD victim 0 + (s.liveLpns victim).length = c.pagesPerBlock

/-- What the balance relies on: listed LPNs are mapped and no count is negative. -/
structure Counted (s : PageMappingFTL) : Prop where
  mapped : ∀ block, ∀ lpn ∈ s.validLpns.getD block .empty, (s.mapping.get? lpn).isSome
  nonneg : ∀ e ∈ s.invalidPages.entries, 0 ≤ e.2

theorem fresh_counted : Counted fresh := by
  constructor
  · intro block lpn h
    exact absurd h List.not_mem_nil
  · intro e h
    exact absurd h List.not_mem_nil

theorem nonneg_set {d : Dict BlockKey ℤ} (h : ∀ e ∈ d.entries, 0 ≤ e.2) (block : BlockKey)
    {n : ℤ} (hn : 0 ≤ n) : ∀ e ∈ (d.set block n).entries, 0 ≤ e.2 := by
  rintro ⟨block', m⟩ he
  rw [← Dict.get?_eq_some_iff, Dict.get?_set] at he
  split_ifs at he with hb
  · exact hn.trans_eq (Option.some.inj he)
  · exact h _ (Dict.get?_eq_some_iff.mp he)

theorem nonneg_getD {d : Dict BlockKey ℤ} (h : ∀ e ∈ d.entries, 0 ≤ e.2) (block : BlockKey) :
    0 ≤ d.getD block 0 := by
  unfold Dict.getD
  cases hb : d.get? block with
  | none => exact le_rfl
  | some n => exact h _ (Dict.get?_eq_some_iff.mp hb)

theorem mapped_set (d : Dict ℤ PhysicalPage) (lpn l : ℤ) (p : PhysicalPage)
    (h : (d.get? l).isSome) : ((d.set lpn p).get? l).isSome := by
  rw [Dict.get?_set]
  split_ifs
  · rfl
  · exact h

theorem invalidatePrevious_counted (lpn : ℤ) (h : Counted s) :
    Counted (s.invalidatePrevious lpn) := by
  unfold invalidatePrevious
  cases s.mapping.get? lpn with
  | none => exact h
  | some previous =>
    constructor
    · intro block l hl
      simp only [discardValid, Dict.getD_set] at hl
      apply h.mapped block l
      split_ifs at hl with hb
      · rw [← hb]
        exact (PySet.mem_discard.mp hl).2
      · exact hl
    · have hcount := nonneg_getD h.nonneg (blockKey previous)
      exact nonneg_set h.nonneg _ (Int.add_nonneg hcount Int.one_nonneg)

theorem place_counted (lpn : ℤ) (p : PhysicalPage) (h : Counted s) : Counted (s.place lpn p) := by
  refine ⟨fun block l hl => ?_, h.nonneg⟩
  rcases mem_addValid.mp hl with ⟨-, rfl⟩ | hl
  · show ((s.mapping.set l p).get? l).isSome
    rw [Dict.get?_set_self]
    rfl
  · exact mapped_set s.mapping lpn l p (h.mapped block l hl)

theorem allocate_counted {avoid : Option BlockKey} {p : PhysicalPage} (h : Counted s)
    (ha : allocate c avoid s = (.ok p, t)) : Counted t := by
  obtain ⟨hmap, hval, hinv, -⟩ := allocate_frame ha
  exact ⟨by rw [hmap, hval]; exact h.mapped, by rw [hinv]; exact h.nonneg⟩

theorem touchVictim_counted (victim : BlockKey) (h : Counted s) :
    Counted (s.touchVictim victim) := by
  refine ⟨fun block l hl => h.mapped block l ?_, h.nonneg⟩
  simpa only [touchVictim, Dict.getD_touch] using hl

theorem erase_counted (victim : BlockKey) (h : Counted s) : Counted (s.erase c victim) := by
  refine ⟨fun block l hl => ?_, nonneg_set h.nonneg _ le_rfl⟩
  simp only [erase, Dict.getD_set] at hl
  split_ifs at hl
  · exact absurd hl List.not_mem_nil
  · exact h.mapped block l hl

theorem after_counted (call : Call) (h : Counted s) : Counted (after c s call) :=
  after_rule (P := Counted) (fun _ lpn hs => invalidatePrevious_counted lpn hs)
    (fun _ _ _ lpn p hs ha => place_counted lpn p (allocate_counted hs ha))
    (fun _ victim hs => touchVictim_counted victim hs)
    (fun _ victim _ hs => erase_counted victim hs) call h

theorem place_size (s : PageMappingFTL) (lpn : ℤ) (p : PhysicalPage) :
    (s.place lpn p).mapping.size =
      if (s.mapping.get? lpn).isSome then s.mapping.size else s.mapping.size + 1 :=
  s.mapping.size_set lpn p

theorem invalidatePrevious_total (s : PageMappingFTL) (lpn : ℤ) :
    (s.invalidatePrevious lpn).invalidPages.total =
      if (s.mapping.get? lpn).isSome then s.invalidPages.total + 1 else s.invalidPages.total := by
  unfold invalidatePrevious
  cases s.mapping.get? lpn with
  | none => rfl
  | some previous =>
    show (s.invalidPages.set _ _).total = s.invalidPages.total + 1
    rw [Dict.total_set]
    simp only [discardValid]
    omega

/-- A write turns a free page into a mapped one, and for an LPN that was mapped its old
page into an invalid one. -/
theorem write_balance {lpn : ℤ} {p : PhysicalPage} (h : s.write c lpn = (.ok p, s')) :
    balance c s' = balance c s := by
  obtain ⟨t, ha, rfl⟩ := write_ok h
  obtain ⟨hmap, hrec, hnext⟩ := s.invalidatePrevious_frame lpn
  obtain ⟨hmap', -, hinv, -⟩ := allocate_frame ha
  have hfree : t.freePages c + 1 = s.freePages c := by
    rw [allocate_freePages ha, freePages, freePages, hrec, hnext]
  have hsize := t.place_size lpn p
  have htotal := s.invalidatePrevious_total lpn
  rw [hmap', hmap] at hsize
  rw [← hinv] at htotal
  show (t.freePages c : ℤ) + (t.place lpn p).mapping.size + t.invalidPages.total = _
  rw [hsize, htotal, balance]
  split_ifs
  · omega
  · push_cast
    omega

theorem relocate_counts {victim : BlockKey} {live : List ℤ}
    (hlive : ∀ lpn ∈ live, (s.mapping.get? lpn).isSome)
    (hr : relocate c victim live s = (none, t)) :
    t.freePages c + live.length = s.freePages c ∧ t.mapping.size = s.mapping.size ∧
      t.invalidPages = s.invalidPages := by
  induction live generalizing s with
  | nil =>
    obtain ⟨-, rfl⟩ := Prod.mk.inj hr
    exact ⟨rfl, rfl, rfl⟩
  | cons lpn rest ih =>
    rw [relocate] at hr
    rcases ha : allocate c (some victim) s with ⟨r, u⟩
    rw [ha] at hr
    cases r with
    | error e => simp at hr
    | ok p =>
      obtain ⟨hmap, -, hinv, -⟩ := allocate_frame ha
      have hfree := allocate_freePages ha
      have hrest : ∀ l ∈ rest, ((u.place lpn p).mapping.get? l).isSome := by
        intro l hl
        apply mapped_set
        rw [hmap]
        exact hlive l (List.mem_cons_of_mem lpn hl)
      obtain ⟨hfree', hsize, hinv'⟩ := ih hrest hr
      have hplace := u.place_size lpn p
      rw [hmap, if_pos (hlive lpn List.mem_cons_self)] at hplace
      refine ⟨?_, hsize.trans hplace, hinv'.trans hinv⟩
      rw [List.length_cons, ← hfree, ← Nat.add_assoc, hfree']
      rfl

/-- A collection returns a whole block for the pages it moved and the invalid pages it
cleared. -/
theorem garbageCollect_balance {r : GarbageCollectionResult} (h : Counted s)
    (hgc : s.garbageCollect c = (.ok r, s')) :
    ∃ victim, s.victim? = some victim ∧ balance c s' = balance c s + c.pagesPerBlock -
      (s.invalidPages.getD victim 0 + (s.liveLpns victim).length) := by
  have hcollects := garbageCollect_collects c s
  rw [hgc] at hcollects
  cases hcollects with
  | @done victim t hv hspace hr =>
    have hlive : ∀ lpn ∈ s.liveLpns victim, ((s.touchVictim victim).mapping.get? lpn).isSome :=
      fun lpn hl => h.mapped victim lpn (PySet.mem_sorted.mp hl)
    obtain ⟨hfree, hsize, hinv⟩ := relocate_counts hlive hr
    refine ⟨victim, hv, ?_⟩
    have hpages : (t.erase c victim).freePages c = t.freePages c + c.pagesPerBlock := by
      simp only [freePages, erase, blockPages, List.length_append, List.length_map,
        List.length_range]
      omega
    have htotal : (t.erase c victim).invalidPages.total =
        s.invalidPages.total - s.invalidPages.getD victim 0 := by
      show (t.invalidPages.set victim 0).total = _
      rw [Dict.total_set, hinv]
      show s.invalidPages.total + 0 - s.invalidPages.getD victim 0 = _
      omega
    have hfree' : t.freePages c + (s.liveLpns victim).length = s.freePages c := hfree
    show ((t.erase c victim).freePages c : ℤ) + t.mapping.size +
      (t.erase c victim).invalidPages.total = _
    rw [hpages, htotal, hsize, balance, ← hfree']
    push_cast
    show _ + (s.mapping.size : ℤ) + _ = _
    omega

/-- A successful call keeps the balance exactly when its victim is used up. -/
theorem after_balance_iff {call : Call} (h : Counted s) (hok : Succeeds c s call) :
    balance c (after c s call) = balance c s ↔ VictimFull c s call := by
  cases call with
  | write lpn =>
    obtain ⟨p, hp⟩ := hok
    have hw : s.write c lpn = (.ok p, (s.write c lpn).2) := Prod.ext hp rfl
    exact ⟨fun _ => trivial, fun _ => write_balance hw⟩
  | garbageCollect =>
    obtain ⟨r, hr⟩ := hok
    have hgc : s.garbageCollect c = (.ok r, (s.garbageCollect c).2) := Prod.ext hr rfl
    obtain ⟨victim, hv, hbal⟩ := garbageCollect_balance h hgc
    show balance c (s.garbageCollect c).2 = balance c s ↔ _
    constructor
    · intro heq victim' hv'
      obtain rfl : victim = victim' := Option.some.inj (hv.symm.trans hv')
      omega
    · intro hfull
      have := hfull victim hv
      omega

theorem total_nonneg (h : Counted s) : 0 ≤ s.invalidPages.total := by
  show 0 ≤ (s.invalidPages.entries.map Prod.snd).sum
  apply List.sum_nonneg
  intro n hn
  obtain ⟨e, he, rfl⟩ := List.mem_map.mp hn
  exact h.nonneg e he

theorem pagesConserved_iff (h : Counted s) :
    PagesConserved c s ↔ balance c s = c.capacityPages := by
  refine ⟨And.left, fun hb => ⟨hb, ?_⟩⟩
  have := total_nonneg h
  unfold balance at hb
  omega

/-- In a run of successful calls every state reached conserves the pages exactly when every
collected block is used up. -/
theorem run_pagesConserved_iff (c : ControllerConfig) (calls : List Call)
    (hok : Along (after c) (Succeeds c) fresh calls) :
    (∀ n, PagesConserved c (run c (calls.take n))) ↔
      Along (after c) (VictimFull c) fresh calls := by
  refine forall_take_iff_along (fun s call hs _ => after_counted call hs) ?_ fresh_counted ?_ hok
  · intro s call hs hcall hq
    rw [pagesConserved_iff (after_counted call hs), ← after_balance_iff hs hcall,
      ((pagesConserved_iff hs).mp hq)]
  · apply (pagesConserved_iff fresh_counted).mpr
    simp [balance, freePages, fresh, Dict.size, Dict.total, Dict.empty]

/-- An overwrite and the collection of a block that is used up. -/
theorem collectAfterOverwrite_pagesConserved :
    Along (after threeBlockConfig) (Succeeds threeBlockConfig) fresh collectAfterOverwrite ∧
      ∀ n, PagesConserved threeBlockConfig
        (run threeBlockConfig (collectAfterOverwrite.take n)) := by
  have hok : Along (after threeBlockConfig) (Succeeds threeBlockConfig) fresh
      collectAfterOverwrite := ⟨⟨_, rfl⟩, ⟨_, rfl⟩, ⟨_, rfl⟩, ⟨_, rfl⟩, ⟨_, rfl⟩, trivial⟩
  have hfull : Along (after threeBlockConfig) (VictimFull threeBlockConfig) fresh
      collectAfterOverwrite := by
    refine ⟨trivial, trivial, trivial, trivial, ?_, trivial⟩
    intro victim hv
    obtain rfl : (0, 0, 0) = victim := Option.some.inj hv
    rfl
  exact ⟨hok, (run_pagesConserved_iff _ _ hok).mpr hfull⟩

/-- Collecting the half-empty block of an overwritten LPN leaves more free pages than the
flash has. -/
theorem run_not_pagesConserved :
    Along (after twoBlockConfig) (Succeeds twoBlockConfig) fresh
        [.write 0, .write 0, .garbageCollect] ∧
      freePages twoBlockConfig (run twoBlockConfig [.write 0, .write 0, .garbageCollect]) = 9 ∧
      ¬ PagesConserved twoBlockConfig
        (run twoBlockConfig [.write 0, .write 0, .garbageCollect]) := by
  refine ⟨⟨⟨_, rfl⟩, ⟨_, rfl⟩, ⟨_, rfl⟩, trivial⟩, by decide, ?_⟩
  intro h
  exact absurd h.2 (by decide)

end PageMappingFTL
end OpenFlash.Ftl
