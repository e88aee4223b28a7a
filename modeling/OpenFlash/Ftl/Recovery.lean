import OpenFlash.Ftl.Checkpoint
import OpenFlash.Ftl.LiveData

/-! Which checkpoints `recover` should refuse. It compares the allocation cursor with the
capacity and installs the pages of every other container as they stand. -/
namespace OpenFlash.Ftl
open Support

/-- The shape that `checkpoint` writes, with any integers in it. -/
structure Checkpoint.WellShaped (checkpoint : Checkpoint) : Prop where
  mapping : ∀ e ∈ checkpoint.mapping.entries, (∃ lpn : ℤ, e.1 = lpn.repr) ∧ e.2.length = 4
  invalidPages : ∀ e ∈ checkpoint.invalidPages.entries, ∃ key, e.1 = encodeBlock key
  validLpns : ∀ e ∈ checkpoint.validLpns.entries, ∃ key, e.1 = encodeBlock key
  eraseCounts : ∀ e ∈ checkpoint.eraseCounts.entries, ∃ key, e.1 = encodeBlock key
  reclaimed : ∀ page ∈ checkpoint.reclaimed, page.length = 4

/-- Every page that the checkpoint names for an LPN or as reclaimed exists. -/
structure Checkpoint.InGeometry (c : ControllerConfig) (checkpoint : Checkpoint) : Prop where
  mapping : ∀ e ∈ checkpoint.mapping.entries, ∀ p, decodePage e.2 = some p → Ftl.InGeometry c p
  reclaimed : ∀ page ∈ checkpoint.reclaimed, ∀ p, decodePage page = some p → Ftl.InGeometry c p

theorem decodePage_isSome {page : List ℤ} (h : page.length = 4) : (decodePage page).isSome := by
  obtain ⟨channel, die, block, index, rfl⟩ := List.length_eq_four.mp h
  rfl

theorem decodeBlock_isSome {value : String} (h : ∃ key, value = encodeBlock key) :
    (decodeBlock value).isSome := by
  obtain ⟨key, rfl⟩ := h
  rw [decodeBlock_encodeBlock]
  rfl

/-- Numerals of different LPNs differ. -/
theorem toInt?_inj {first second : String} (h : ∃ lpn : ℤ, first = lpn.repr)
    (h' : ∃ lpn : ℤ, second = lpn.repr) (heq : first.toInt? = second.toInt?) : first = second := by
  obtain ⟨lpn, rfl⟩ := h
  obtain ⟨lpn', rfl⟩ := h'
  rw [Int.toInt?_repr, Int.toInt?_repr, Option.some.injEq] at heq
  rw [heq]

namespace PageMappingFTL
variable {c : ControllerConfig} {s : PageMappingFTL} {checkpoint : Checkpoint}

/-- Every page in the mapping and in the free list exists. -/
structure PagesInside (c : ControllerConfig) (s : PageMappingFTL) : Prop where
  mapping : ∀ l p, s.mapping.get? l = some p → InGeometry c p
  reclaimed : ∀ p ∈ s.reclaimed, InGeometry c p

/-- A well-shaped checkpoint is decoded, page by page. -/
theorem decode_wellShaped (h : checkpoint.WellShaped) :
    ∃ s, decode checkpoint = some s ∧
      (∀ l p, s.mapping.get? l = some p ↔ ∃ e ∈ checkpoint.mapping.entries,
        e.1.toInt? = some l ∧ decodePage e.2 = some p) ∧
      ∀ p, p ∈ s.reclaimed ↔ ∃ page ∈ checkpoint.reclaimed, decodePage page = some p := by
  have hlpn : ∀ e ∈ checkpoint.mapping.entries, (String.toInt? e.1).isSome := by
    intro e he
    obtain ⟨lpn, hlpn⟩ := (h.mapping e he).1
    rw [hlpn, Int.toInt?_repr]
    rfl
  obtain ⟨mapping, hmap⟩ := Dict.exists_comprehension? decodePage hlpn
    fun e he => decodePage_isSome (h.mapping e he).2
  obtain ⟨invalidPages, hinv⟩ := Dict.exists_comprehension? some
    (fun e he => decodeBlock_isSome (h.invalidPages e he)) fun _ _ => rfl
  obtain ⟨validLpns, hval⟩ := Dict.exists_comprehension? decodeLpns
    (fun e he => decodeBlock_isSome (h.validLpns e he)) fun _ _ => rfl
  obtain ⟨eraseCounts, hcnt⟩ := Dict.exists_comprehension? some
    (fun e he => decodeBlock_isSome (h.eraseCounts e he)) fun _ _ => rfl
  obtain ⟨reclaimed, hrec⟩ :=
    Dict.exists_mapM fun page hp => decodePage_isSome (h.reclaimed page hp)
  refine ⟨⟨mapping, invalidPages, validLpns, eraseCounts, checkpoint.nextPage.toNat, reclaimed⟩,
    ?_, fun l p => ?_, fun p => Dict.mem_of_mapM hrec⟩
  · simp only [decode, hmap, hinv, hval, hcnt, hrec]
    rfl
  · apply Dict.get?_comprehension? hmap
    intro e he e' he'
    exact toInt?_inj (h.mapping e he).1 (h.mapping e' he').1

/-- What the FTL writes has the shape. -/
theorem checkpoint_wellShaped (s : PageMappingFTL) : s.checkpoint.WellShaped := by
  have hblock : Function.Injective encodeBlock := by
    intro key key' heq
    have hdecode := decodeBlock_encodeBlock key
    rw [heq, decodeBlock_encodeBlock, Option.some.injEq] at hdecode
    exact hdecode.symm
  have hrepr : Function.Injective Int.repr := by
    intro n n' heq
    have hread := Int.toInt?_repr n
    rw [heq, Int.toInt?_repr, Option.some.injEq] at hread
    exact hread.symm
  constructor
  · intro e he
    rw [checkpoint, Dict.comprehension_entries hrepr] at he
    obtain ⟨item, -, rfl⟩ := List.mem_map.mp he
    exact ⟨⟨item.1, rfl⟩, rfl⟩
  · intro e he
    rw [checkpoint, Dict.comprehension_entries hblock] at he
    obtain ⟨item, -, rfl⟩ := List.mem_map.mp he
    exact ⟨item.1, rfl⟩
  · intro e he
    rw [checkpoint, Dict.comprehension_entries hblock] at he
    obtain ⟨item, -, rfl⟩ := List.mem_map.mp he
    exact ⟨item.1, rfl⟩
  · intro e he
    rw [checkpoint, Dict.comprehension_entries hblock] at he
    obtain ⟨item, -, rfl⟩ := List.mem_map.mp he
    exact ⟨item.1, rfl⟩
  · intro page hp
    obtain ⟨p, -, rfl⟩ := List.mem_map.mp hp
    rfl

/-- Recovery keeps to the geometry exactly when the cursor is refused or the checkpoint
names no page outside it; in every other case it raises `ValueError`. -/
theorem recover_pagesInside_iff (c : ControllerConfig) (checkpoint : Checkpoint)
    (h : checkpoint.WellShaped) :
    (∀ s, recover c checkpoint = .ok s → PagesInside c s) ↔
      (0 ≤ checkpoint.nextPage ∧ checkpoint.nextPage ≤ c.capacityPages →
        checkpoint.InGeometry c) := by
  obtain ⟨s, hdecode, hmap, hrec⟩ := decode_wellShaped h
  have hrecover : recover c checkpoint =
      if 0 ≤ checkpoint.nextPage ∧ checkpoint.nextPage ≤ c.capacityPages then .ok s
      else .error ⟨"checkpoint allocation cursor exceeds FTL capacity"⟩ := by
    rw [recover, hdecode]
  rw [hrecover]
  constructor
  · intro hinside hcursor
    have hs := hinside s (if_pos hcursor)
    constructor
    · intro e he p hp
      obtain ⟨lpn, hlpn⟩ := (h.mapping e he).1
      have hread : e.1.toInt? = some lpn := by rw [hlpn, Int.toInt?_repr]
      exact hs.mapping lpn p ((hmap lpn p).mpr ⟨e, he, hread, hp⟩)
    · intro page hpage p hp
      exact hs.reclaimed p ((hrec p).mpr ⟨page, hpage, hp⟩)
  · intro hvalid s' hs'
    split_ifs at hs' with hcursor
    obtain rfl : s = s' := Except.ok.inj hs'
    obtain ⟨hmapping, hreclaimed⟩ := hvalid hcursor
    constructor
    · intro l p hl
      obtain ⟨e, he, -, hp⟩ := (hmap l p).mp hl
      exact hmapping e he p hp
    · intro p hp
      obtain ⟨page, hpage, hdecoded⟩ := (hrec p).mp hp
      exact hreclaimed page hpage p hdecoded

/-- LPN 0 on the given page and nothing else. -/
def mappedTo (p : PhysicalPage) : PageMappingFTL :=
  { fresh with mapping := Dict.empty.set 0 p }

theorem mappedTo_entries (p : PhysicalPage) :
    (mappedTo p).checkpoint.mapping.entries = [((0 : ℤ).repr, encodePage p)] := rfl

/-- The only page of a flash comes back. -/
theorem mappedTo_pagesInside :
    (mappedTo ⟨0, 0, 0, 0⟩).checkpoint.WellShaped ∧
      ∀ s, recover onePageConfig (mappedTo ⟨0, 0, 0, 0⟩).checkpoint = .ok s →
        PagesInside onePageConfig s := by
  have hshape := checkpoint_wellShaped (mappedTo ⟨0, 0, 0, 0⟩)
  refine ⟨hshape, (recover_pagesInside_iff _ _ hshape).mpr fun _ => ⟨?_, ?_⟩⟩
  · intro e he p hp
    rw [mappedTo_entries, List.mem_singleton] at he
    rw [he, decodePage_encodePage, Option.some.injEq] at hp
    rw [← hp]
    decide
  · intro page hpage
    exact absurd hpage List.not_mem_nil

/-- A checkpoint that puts LPN 0 on channel 9 is accepted for a flash with one channel. -/
theorem mappedTo_recovered_outside :
    (mappedTo ⟨9, 0, 0, 0⟩).checkpoint.WellShaped ∧
      ∃ s, recover onePageConfig (mappedTo ⟨9, 0, 0, 0⟩).checkpoint = .ok s ∧
        s.mapping.get? 0 = some ⟨9, 0, 0, 0⟩ ∧ ¬ PagesInside onePageConfig s := by
  have hshape := checkpoint_wellShaped (mappedTo ⟨9, 0, 0, 0⟩)
  obtain ⟨s, hdecode, hmap, -⟩ := decode_wellShaped hshape
  have hzero : s.mapping.get? 0 = some ⟨9, 0, 0, 0⟩ := by
    refine (hmap 0 _).mpr ⟨((0 : ℤ).repr, encodePage ⟨9, 0, 0, 0⟩), ?_, Int.toInt?_repr 0, rfl⟩
    rw [mappedTo_entries]
    exact List.mem_singleton_self _
  refine ⟨hshape, s, ?_, hzero, fun h => absurd (h.mapping 0 _ hzero) (by decide)⟩
  rw [recover, hdecode]
  rfl

end PageMappingFTL
end OpenFlash.Ftl
