import OpenFlash.Support.DictOrder
import OpenFlash.Support.Runs
import OpenFlash.Ftl.FreePool

/-! States that differ only in the order of their dictionaries and sets answer every
sequence of operations alike. -/
namespace OpenFlash.Ftl
open Support
namespace PageMappingFTL
variable {c : ControllerConfig} {s t : PageMappingFTL}

/-- The public operations of the class. -/
inductive Operation where
  | write (lpn : ℤ)
  | garbageCollect
  | lookup (lpn : ℤ)
  | mapRead (lpn : ℤ)
  | needsGc
  | freePages
  | maxObservedEraseCount
  deriving DecidableEq

/-- What an operation returns or raises. -/
inductive Answer where
  | written (result : Except OutOfSpaceError PhysicalPage)
  | collected (result : Except OutOfSpaceError GarbageCollectionResult)
  | found (page : Option PhysicalPage)
  | page (page : PhysicalPage)
  | flag (value : Bool)
  | count (value : ℤ)

def perform (c : ControllerConfig) (s : PageMappingFTL) : Operation → Answer × PageMappingFTL
  | .write lpn => (.written (s.write c lpn).1, (s.write c lpn).2)
  | .garbageCollect => (.collected (s.garbageCollect c).1, (s.garbageCollect c).2)
  | .lookup lpn => (.found (s.lookup lpn), s)
  | .mapRead lpn => (.page (s.mapRead c lpn), s)
  | .needsGc => (.flag (s.needsGc c), s)
  | .freePages => (.count (s.freePages c), s)
  | .maxObservedEraseCount => (.count s.maxObservedEraseCount, s)

/-- The same items in every container. -/
structure Same (s t : PageMappingFTL) : Prop where
  mapping : s.mapping.Same t.mapping
  invalidPages : s.invalidPages.Same t.invalidPages
  validLpns : ∀ block, (s.validLpns.getD block .empty).Same (t.validLpns.getD block .empty)
  eraseCounts : s.eraseCounts.Same t.eraseCounts
  nextPage : s.nextPage = t.nextPage
  reclaimed : s.reclaimed = t.reclaimed

theorem freePages_same (h : Same s t) : s.freePages c = t.freePages c := by
  unfold freePages
  rw [h.nextPage, h.reclaimed]

theorem needsGc_same (h : Same s t) : s.needsGc c = t.needsGc c := by
  unfold needsGc
  rw [freePages_same h, h.invalidPages.perm.isEmpty_eq]

theorem maxObservedEraseCount_same (h : Same s t) :
    s.maxObservedEraseCount = t.maxObservedEraseCount := by
  unfold maxObservedEraseCount
  rw [max?_perm (h.eraseCounts.perm.map Prod.snd)]

theorem mapRead_same (h : Same s t) (lpn : ℤ) : s.mapRead c lpn = t.mapRead c lpn := by
  unfold mapRead lookup
  rw [h.mapping lpn]

theorem victimKey_same (h : Same s t) : s.victimKey = t.victimKey := by
  funext block
  unfold victimKey
  rw [h.invalidPages.getD, h.eraseCounts.getD]

theorem victimKey_injective (s : PageMappingFTL) : Function.Injective s.victimKey := by
  rintro ⟨channel, die, block⟩ ⟨channel', die', block'⟩ h
  simp only [victimKey, List.cons.injEq, neg_inj] at h
  obtain ⟨-, -, rfl, rfl, rfl, -⟩ := h
  rfl

theorem candidates_same (h : Same s t) : s.candidates.Perm t.candidates :=
  (h.invalidPages.perm.filter _).map _

/-- The key of the victim names its block, so the order of the candidates is immaterial. -/
theorem victim_same (h : Same s t) : s.victim? = t.victim? := by
  unfold victim?
  rw [victimKey_same h]
  convert argmax_perm t.victimKey_injective (candidates_same h)

theorem liveLpns_same (h : Same s t) (victim : BlockKey) :
    s.liveLpns victim = t.liveLpns victim :=
  (h.validLpns victim).sorted

theorem setValid_same {d d' : Dict BlockKey (PySet ℤ)} {lpns lpns' : PySet ℤ}
    (h : ∀ block, (d.getD block .empty).Same (d'.getD block .empty)) (hl : lpns.Same lpns')
    (block block' : BlockKey) :
    ((d.set block lpns).getD block' .empty).Same ((d'.set block lpns').getD block' .empty) := by
  rw [Dict.getD_set, Dict.getD_set]
  split_ifs
  · exact hl
  · exact h block'

theorem place_same (h : Same s t) (lpn : ℤ) (p : PhysicalPage) :
    Same (s.place lpn p) (t.place lpn p) where
  mapping := h.mapping.set lpn p
  invalidPages := h.invalidPages
  validLpns := setValid_same h.validLpns ((h.validLpns _).add lpn) _
  eraseCounts := h.eraseCounts
  nextPage := h.nextPage
  reclaimed := h.reclaimed

theorem invalidatePrevious_same (h : Same s t) (lpn : ℤ) :
    Same (s.invalidatePrevious lpn) (t.invalidatePrevious lpn) := by
  unfold invalidatePrevious
  rw [h.mapping lpn]
  cases t.mapping.get? lpn with
  | none => exact h
  | some previous =>
    dsimp only [discardValid]
    rw [h.invalidPages.getD]
    exact
      { h with
        invalidPages := h.invalidPages.set _ _
        validLpns := setValid_same h.validLpns ((h.validLpns _).discard lpn) _ }

/-- Outcomes that agree and leave the same items behind. -/
def SameResult {ρ : Type} (r r' : ρ × PageMappingFTL) : Prop := r.1 = r'.1 ∧ Same r.2 r'.2

theorem allocate_same (h : Same s t) (avoid : Option BlockKey) :
    SameResult (s.allocate c avoid) (t.allocate c avoid) := by
  unfold allocate
  rw [h.reclaimed]
  rcases allocateLoop avoid t.reclaimed.length t.reclaimed with ⟨_ | physical, queue⟩
  · dsimp only
    rw [h.nextPage]
    split_ifs
    · exact ⟨rfl, { h with reclaimed := rfl, nextPage := rfl }⟩
    · exact ⟨rfl, { h with reclaimed := rfl, nextPage := rfl }⟩
  · exact ⟨rfl, { h with reclaimed := rfl }⟩

theorem write_same (h : Same s t) (lpn : ℤ) : SameResult (s.write c lpn) (t.write c lpn) := by
  unfold write
  have ha := allocate_same (c := c) (invalidatePrevious_same h lpn) none
  rcases hs : allocate c none (s.invalidatePrevious lpn) with ⟨r, s'⟩
  rcases ht : allocate c none (t.invalidatePrevious lpn) with ⟨r', t'⟩
  rw [hs, ht] at ha
  obtain ⟨rfl : r = r', hst⟩ := ha
  cases r with
  | error e => exact ⟨rfl, hst⟩
  | ok physical => exact ⟨rfl, place_same hst lpn physical⟩

theorem relocate_same (victim : BlockKey) (live : List ℤ) (h : Same s t) :
    SameResult (s.relocate c victim live) (t.relocate c victim live) := by
  induction live generalizing s t with
  | nil => exact ⟨rfl, h⟩
  | cons lpn rest ih =>
    have ha := allocate_same (c := c) h (some victim)
    unfold relocate
    rcases hs : allocate c (some victim) s with ⟨r, s'⟩
    rcases ht : allocate c (some victim) t with ⟨r', t'⟩
    rw [hs, ht] at ha
    obtain ⟨rfl : r = r', hst⟩ := ha
    cases r with
    | error e => exact ⟨rfl, hst⟩
    | ok physical => exact ih (place_same hst lpn physical)

theorem touchVictim_same (h : Same s t) (victim : BlockKey) :
    Same (s.touchVictim victim) (t.touchVictim victim) := by
  refine { h with validLpns := fun block => ?_, eraseCounts := fun block => ?_ }
  · simp only [touchVictim, Dict.getD_touch]
    exact h.validLpns block
  · simp only [touchVictim, Dict.get?_foldl_touch]
    by_cases hb : block ∈ s.candidates
    · rw [if_pos hb, if_pos ((candidates_same h).mem_iff.mp hb), h.eraseCounts.getD]
    · rw [if_neg hb, if_neg (fun hb' => hb ((candidates_same h).mem_iff.mpr hb')),
        h.eraseCounts block]

theorem erase_same (h : Same s t) (victim : BlockKey) :
    Same (s.erase c victim) (t.erase c victim) := by
  unfold erase
  rw [h.eraseCounts.getD, h.reclaimed]
  exact
    { h with
      validLpns := setValid_same h.validLpns (fun _ => Iff.rfl) _
      invalidPages := h.invalidPages.set _ _
      eraseCounts := h.eraseCounts.set _ _
      reclaimed := rfl }

theorem garbageCollect_same (h : Same s t) :
    SameResult (s.garbageCollect c) (t.garbageCollect c) := by
  unfold garbageCollect
  rw [victim_same h]
  cases t.victim? with
  | none => exact ⟨rfl, h⟩
  | some victim =>
    have htouch := touchVictim_same h victim
    have hr := relocate_same (c := c) victim (t.liveLpns victim) htouch
    dsimp only
    rw [liveLpns_same h, freePages_same htouch]
    split_ifs
    · exact ⟨rfl, htouch⟩
    · rcases hs : (s.touchVictim victim).relocate c victim (t.liveLpns victim) with ⟨r, s'⟩
      rcases ht : (t.touchVictim victim).relocate c victim (t.liveLpns victim) with ⟨r', t'⟩
      rw [hs, ht] at hr
      obtain ⟨rfl : r = r', hst⟩ := hr
      cases r with
      | some e => exact ⟨rfl, hst⟩
      | none =>
        have herase := erase_same (c := c) hst victim
        refine ⟨?_, herase⟩
        dsimp only
        rw [herase.eraseCounts.getD]

/-- One operation on two such states: the same answer, and again such states. -/
theorem perform_same (h : Same s t) (op : Operation) :
    (s.perform c op).1 = (t.perform c op).1 ∧ Same (s.perform c op).2 (t.perform c op).2 := by
  cases op with
  | write lpn => exact ⟨congrArg Answer.written (write_same h lpn).1, (write_same h lpn).2⟩
  | garbageCollect =>
    exact ⟨congrArg Answer.collected (garbageCollect_same h).1, (garbageCollect_same h).2⟩
  | lookup lpn => exact ⟨congrArg Answer.found (h.mapping lpn), h⟩
  | mapRead lpn => exact ⟨congrArg Answer.page (mapRead_same h lpn), h⟩
  | needsGc => exact ⟨congrArg Answer.flag (needsGc_same h), h⟩
  | freePages => exact ⟨congrArg (fun n : ℕ => Answer.count n) (freePages_same h), h⟩
  | maxObservedEraseCount => exact ⟨congrArg Answer.count (maxObservedEraseCount_same h), h⟩

theorem runOutputs_same (h : Same s t) (ops : List Operation) :
    (runOutputs (perform c) s ops).1 = (runOutputs (perform c) t ops).1 := by
  have hstep : ∀ s t op, Same s t → True →
      (perform c s op).1 = (perform c t op).1 ∧ Same (perform c s op).2 (perform c t op).2 :=
    fun s t op hst _ => perform_same hst op
  exact runOutputs_lockstep hstep ops (fun _ _ => trivial) h

end PageMappingFTL
end OpenFlash.Ftl
