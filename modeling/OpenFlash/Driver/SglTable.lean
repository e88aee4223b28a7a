import OpenFlash.Driver.Fua
import OpenFlash.Driver.Mapping

/-! The size of the SGL table. The driver counts physical segments before it maps a request
and page segments while it maps it, and the table has room for sixteen. -/
namespace OpenFlash.Driver
open Abi Support

def pageSize : ℕ := 4096

/-- A physical segment: a merged run of contiguous memory. -/
structure PhysRun where
  addr : ℕ
  length : ℕ
  nonempty : 0 < length

/-- The iteration over `n` pages: what is left of a run, up to the end of the page. -/
def pageSegments : ℕ → ℕ → ℕ → List ℕ
  | 0, _, _ => []
  | n + 1, offset, left =>
      min (pageSize - offset) left :: pageSegments n 0 (left - min (pageSize - offset) left)

/-- The number of pages that a run meets. -/
def PhysRun.pages (run : PhysRun) : ℕ :=
  (run.addr % pageSize + run.length + (pageSize - 1)) / pageSize

/-- The lengths of the segments in which `rq_for_each_segment` visits a run. -/
def PhysRun.segments (run : PhysRun) : List ℕ :=
  pageSegments run.pages (run.addr % pageSize) run.length

theorem length_pageSegments (n offset left : ℕ) : (pageSegments n offset left).length = n := by
  induction n generalizing offset left with
  | zero => rfl
  | succ n ih => simp [pageSegments, ih]

theorem sum_pageSegments {n offset left : ℕ} (h : offset + left ≤ n * pageSize) :
    (pageSegments n offset left).sum = left := by
  induction n generalizing offset left with
  | zero =>
    simp only [Nat.zero_mul] at h
    simp only [pageSegments, List.sum_nil]
    omega
  | succ n ih =>
    have hrest : 0 + (left - min (pageSize - offset) left) ≤ n * pageSize := by
      rw [Nat.add_mul] at h
      omega
    simp only [pageSegments, List.sum_cons, ih hrest]
    omega

/-- The page segments of a run add up to the run. -/
theorem PhysRun.sum_segments (run : PhysRun) : run.segments.sum = run.length := by
  apply sum_pageSegments
  unfold pages pageSize
  omega

/-- A read or write as the block layer may deliver it under the limits of a queue of this
depth. `mapping i` is the outcome of mapping page segment `i`. -/
structure BlockRequest (depth : ℕ) where
  tag : ℕ
  op : ReqOp
  fua : Bool
  pos : UInt64
  runs : List PhysRun
  mapping : ℕ → Option UInt64
  data : op = .read ∨ op = .write
  maxSegments : runs.length ≤ maxSglEntries
  maxHwSectors : (runs.map PhysRun.length).sum ≤ (depth - 1) * 8 * 512

namespace BlockRequest
variable {depth : ℕ}

def segments (r : BlockRequest depth) : List Bvec :=
  (r.runs.flatMap PhysRun.segments).mapIdx fun i length => ⟨.ofNat length, r.mapping i⟩

/-- The request as the driver reads it. -/
def rq (r : BlockRequest depth) : Request :=
  { tag := r.tag
    op := r.op
    fua := r.fua
    pos := r.pos
    bytes := .ofNat (r.runs.map PhysRun.length).sum
    nrPhysSegments := r.runs.length
    segments := r.segments }

def pages (r : BlockRequest depth) : ℕ := (r.runs.map PhysRun.pages).sum

theorem length_segments (r : BlockRequest depth) : r.segments.length = r.pages := by
  simp [segments, pages, PhysRun.segments, length_pageSegments, List.length_flatMap]

/-- The two segmentations of a request have the same bytes. -/
theorem sum_pageSegments (r : BlockRequest depth) :
    (r.runs.flatMap PhysRun.segments).sum = (r.runs.map PhysRun.length).sum := by
  simp [List.flatMap, List.sum_flatten, Function.comp_def, PhysRun.sum_segments]

theorem getElem?_segments (r : BlockRequest depth) {i : ℕ} (h : i < r.pages) :
    ∃ length, r.segments[i]? = some ⟨length, r.mapping i⟩ := by
  rw [← length_segments, segments, List.length_mapIdx] at h
  simpa [segments] using ⟨_, List.getElem?_eq_getElem h⟩

end BlockRequest

/-- The indices at which the mapping loop writes the table. -/
def mapWrites : List Bvec → ℕ → List ℕ
  | [], _ => []
  | bvec :: rest, mapped =>
      match bvec.mapping with
      | none => []
      | some _ => mapped :: mapWrites rest (mapped + 1)

/-- The checks of `openflash_queue_rq` in front of the mapping loop. -/
def EntersLoop (rq : Request) (q : OpenflashQueue) : Prop :=
  ¬ (rq.pos % 8 ≠ 0 ∨ rq.bytes % 4096 ≠ 0 ∨ q.depth ≤ (UInt16.ofNat (rq.tag + 1)).toNat) ∧
    ¬ (rq.fua ∧ rq.op ≠ .write) ∧ (rq.op = .read ∨ rq.op = .write) ∧
    ¬ (rq.bytes = 0 ∨ maxSglEntries < rq.nrPhysSegments)

instance (rq : Request) (q : OpenflashQueue) : Decidable (EntersLoop rq q) :=
  inferInstanceAs (Decidable (_ ∧ _ ∧ _ ∧ _))

/-- The indices at which a call of `openflash_queue_rq` writes the table of its tag. -/
def tableWrites (rq : Request) (q : OpenflashQueue) : List ℕ :=
  if EntersLoop rq q then mapWrites rq.segments 0 else []

theorem mapWrites_eq_range (segments : List Bvec) (start : ℕ) :
    mapWrites segments start = List.range' start (mappedDescs segments).length := by
  induction segments generalizing start with
  | nil => rfl
  | cons bvec rest ih =>
    cases hm : bvec.mapping with
    | none => simp [mapWrites, mappedDescs, hm]
    | some dma => simp [mapWrites, mappedDescs, hm, ih, List.range'_succ]

theorem mem_mapWrites {segments : List Bvec} {i : ℕ} :
    i ∈ mapWrites segments 0 ↔ i < (mappedDescs segments).length := by
  rw [mapWrites_eq_range, List.mem_range'_1]
  omega

/-- The loop leaves the entries that it does not write. -/
theorem mapSegments_kept (dir : DmaDir) (segments : List Bvec) (start : ℕ)
    (sgl : ℕ → OpenFlashSglDesc) {i : ℕ} (h : i ∉ mapWrites segments start) :
    (mapSegments dir segments start sgl).sgl i = sgl i := by
  induction segments generalizing start sgl with
  | nil => rfl
  | cons bvec rest ih =>
    cases hm : bvec.mapping with
    | none => simp [mapSegments, hm]
    | some dma =>
      simp only [mapWrites, hm, List.mem_cons, not_or] at h
      simp only [mapSegments, hm]
      rw [ih _ _ h.2, Function.update_of_ne h.1]

theorem submitCommand_sgl (capabilities : UInt64) (rq : Request) (opcode : UInt8) (dir : DmaDir)
    (mapped : ℕ) (dma : List DmaEvent) (q : OpenflashQueue) :
    ((submitCommand capabilities rq opcode dir mapped dma q).queue.requests rq.tag).sgl
      = (q.requests rq.tag).sgl := by
  unfold submitCommand
  dsimp only
  split_ifs <;> simp [rejected, OpenflashQueue.setSlot, OpenflashQueue.setRequest]

theorem submitData_sgl (capabilities : UInt64) (rq : Request) (opcode : UInt8) (dir : DmaDir)
    (q : OpenflashQueue) :
    ((submitData capabilities rq opcode dir q).queue.requests rq.tag).sgl
      = if rq.bytes = 0 ∨ maxSglEntries < rq.nrPhysSegments then (q.requests rq.tag).sgl
        else (mapSegments dir rq.segments 0 (q.requests rq.tag).sgl).sgl := by
  unfold submitData
  by_cases hbad : rq.bytes = 0 ∨ maxSglEntries < rq.nrPhysSegments
  · rw [if_pos hbad, if_pos hbad]
    rfl
  · rw [if_neg hbad, if_neg hbad]
    dsimp only
    by_cases hok : (mapSegments dir rq.segments 0 (q.requests rq.tag).sgl).ok = true
    · rw [if_pos hok, submitCommand_sgl]
      simp [OpenflashQueue.setRequest]
    · rw [if_neg hok]
      simp [rejected, OpenflashQueue.setRequest]

section
variable {rq : Request} {q : OpenflashQueue}

theorem openflashQueueRq_eq_submitData (h : EntersLoop rq q) (capabilities : UInt64) :
    openflashQueueRq capabilities rq q
      = submitData capabilities rq (opcodeOf rq.op) (dirOf rq.op) q := by
  obtain ⟨hbad, hfua, hop, -⟩ := h
  unfold openflashQueueRq
  dsimp only
  rw [if_neg hbad, if_neg hfua]
  rcases hop with hop | hop <;> rw [hop] <;> rfl

/-- A call that does not reach the loop leaves the table. -/
theorem openflashQueueRq_sgl_of_not_entersLoop (h : ¬ EntersLoop rq q) (capabilities : UInt64) :
    ((openflashQueueRq capabilities rq q).queue.requests rq.tag).sgl
      = (q.requests rq.tag).sgl := by
  unfold openflashQueueRq
  dsimp only
  by_cases hbad : rq.pos % 8 ≠ 0 ∨ rq.bytes % 4096 ≠ 0 ∨
      q.depth ≤ (UInt16.ofNat (rq.tag + 1)).toNat
  · rw [if_pos hbad]
    rfl
  by_cases hfua : rq.fua = true ∧ rq.op ≠ .write
  · rw [if_neg hbad, if_pos hfua]
    rfl
  have hrefused : rq.op = .read ∨ rq.op = .write →
      rq.bytes = 0 ∨ maxSglEntries < rq.nrPhysSegments := by
    intro hop
    by_contra hpass
    exact h ⟨hbad, hfua, hop, hpass⟩
  rw [if_neg hbad, if_neg hfua]
  cases hop : rq.op with
  | read => exact (submitData_sgl ..).trans (if_pos (hrefused (Or.inl hop)))
  | write => exact (submitData_sgl ..).trans (if_pos (hrefused (Or.inr hop)))
  | flush => exact submitCommand_sgl ..
  | discard => exact submitCommand_sgl ..
  | other => rfl

/-- A call writes the entries of its mapped segments at the indices of `tableWrites` and leaves
all others. -/
theorem openflashQueueRq_tableWrites (capabilities : UInt64) (rq : Request) (q : OpenflashQueue) :
    (∀ i ∈ tableWrites rq q, (mappedDescs rq.segments)[i]?
        = some (((openflashQueueRq capabilities rq q).queue.requests rq.tag).sgl i)) ∧
      ∀ i ∉ tableWrites rq q, ((openflashQueueRq capabilities rq q).queue.requests rq.tag).sgl i
        = (q.requests rq.tag).sgl i := by
  unfold tableWrites
  by_cases h : EntersLoop rq q
  · rw [if_pos h, openflashQueueRq_eq_submitData h, submitData_sgl, if_neg h.2.2.2]
    constructor
    · intro i hi
      rw [mem_mapWrites] at hi
      have hentry := (mapSegments_maps (dirOf rq.op) rq.segments 0
        (q.requests rq.tag).sgl).filled i _ (List.getElem?_eq_getElem hi)
      rw [Nat.zero_add] at hentry
      rw [hentry, List.getElem?_eq_getElem hi]
    · exact fun i hi => mapSegments_kept (dirOf rq.op) rq.segments 0 _ hi
  · rw [if_neg h, openflashQueueRq_sgl_of_not_entersLoop h]
    simp

theorem entersLoop_of_ok {capabilities : UInt64} (hop : rq.op = .read ∨ rq.op = .write)
    (h : (openflashQueueRq capabilities rq q).status = .ok) : EntersLoop rq q := by
  unfold openflashQueueRq at h
  dsimp only at h
  split_ifs at h with hbad hfua
  · cases h
  · cases h
  · refine ⟨hbad, hfua, hop, fun hrefused => ?_⟩
    rcases hop with hop | hop <;> simp [hop, submitData, hrefused, rejected] at h

/-- The table has room for what a call writes, and the command counts no more entries. -/
structure SglBounded (capabilities : UInt64) (rq : Request) (q : OpenflashQueue) : Prop where
  writes : ∀ i ∈ tableWrites rq q, i < maxSglEntries
  count : (openflashQueueRq capabilities rq q).status = .ok →
    ((openflashQueueRq capabilities rq q).queue.sqCmds q.sqTail).control.toNat ≤ maxSglEntries

theorem fillCommand_control_le (rq : Request) (opcode : UInt8) (mapped : ℕ) (sglDma : UInt64)
    (q : OpenflashQueue) : (fillCommand rq opcode mapped sglDma q).control.toNat ≤ mapped := by
  unfold fillCommand
  dsimp only
  by_cases hmapped : mapped ≠ 0
  · rw [if_pos hmapped]
    exact Nat.mod_le mapped (2 ^ 32)
  · rw [if_neg hmapped]
    split_ifs <;> exact Nat.zero_le mapped

theorem sglBounded_iff (capabilities : UInt64) (q : OpenflashQueue)
    (hop : rq.op = .read ∨ rq.op = .write) :
    SglBounded capabilities rq q ↔
      (EntersLoop rq q → (mappedDescs rq.segments).length ≤ maxSglEntries) := by
  constructor
  · intro h henters
    by_contra hlong
    have hwrites := h.writes maxSglEntries
    rw [tableWrites, if_pos henters, mem_mapWrites] at hwrites
    exact absurd (hwrites (by omega)) (Nat.lt_irrefl _)
  · intro h
    constructor
    · intro i hi
      unfold tableWrites at hi
      split_ifs at hi with henters
      · rw [mem_mapWrites] at hi
        exact Nat.lt_of_lt_of_le hi (h henters)
      · cases hi
    · intro hok
      have hcomplete := (openflashQueueRq_translates hop hok).complete
      rw [Request.descs, if_pos hop] at hcomplete
      rw [openflashQueueRq_command hok]
      apply (fillCommand_control_le ..).trans
      rw [mappedOf, if_pos hop, ← hcomplete]
      exact h (entersLoop_of_ok hop hok)

end

/-- Segment `i` is mapped when no segment up to it fails. -/
theorem lt_length_mappedDescs {segments : List Bvec} {i : ℕ} :
    i < (mappedDescs segments).length ↔
      ∀ j ≤ i, ∃ length dma, segments[j]? = some ⟨length, some dma⟩ := by
  induction segments generalizing i with
  | nil => simpa [mappedDescs] using ⟨0, Nat.zero_le i⟩
  | cons bvec rest ih =>
    obtain ⟨length, mapping⟩ := bvec
    cases mapping with
    | none =>
      simp only [mappedDescs, List.length_nil, Nat.not_lt_zero, false_iff]
      intro h
      simpa using h 0 (Nat.zero_le i)
    | some dma =>
      simp only [mappedDescs, List.length_cons]
      cases i with
      | zero => simp
      | succ i =>
        rw [Nat.add_lt_add_iff_right, ih]
        constructor
        · intro h j hj
          cases j with
          | zero => exact ⟨length, dma, rfl⟩
          | succ j => exact h j (by omega)
        · exact fun h j hj => h (j + 1) (by omega)

theorem BlockRequest.length_mappedDescs_le_iff {depth : ℕ} (r : BlockRequest depth) (n : ℕ) :
    (mappedDescs r.segments).length ≤ n ↔ r.pages ≤ n ∨ ∃ i ≤ n, r.mapping i = none := by
  rw [← Nat.not_lt, lt_length_mappedDescs]
  by_cases hpages : r.pages ≤ n
  · have hnone : r.segments[n]? = none := by
      rw [List.getElem?_eq_none_iff, length_segments]
      exact hpages
    simp only [hpages, true_or, iff_true]
    intro h
    obtain ⟨length, dma, hsome⟩ := h n (Nat.le_refl n)
    rw [hnone] at hsome
    cases hsome
  · simp only [hpages, false_or, not_forall]
    apply exists_congr
    intro i
    by_cases hi : i ≤ n
    · obtain ⟨length, hsegment⟩ := r.getElem?_segments (i := i) (by omega)
      simp only [hi, hsegment, true_and, exists_true_left]
      cases r.mapping i <;> simp
    · simp [hi]

/-- The table of a delivered read or write overflows exactly when its runs meet more than sixteen
pages and the first seventeen of their segments can be mapped. -/
theorem blockRequest_sglBounded_iff (capabilities : UInt64) (q : OpenflashQueue)
    (r : BlockRequest q.depth) :
    SglBounded capabilities r.rq q ↔
      (EntersLoop r.rq q →
        r.pages ≤ maxSglEntries ∨ ∃ i ≤ maxSglEntries, r.mapping i = none) := by
  rw [sglBounded_iff capabilities q r.data, ← r.length_mappedDescs_le_iff]
  rfl

/-- Two runs of nine and eight pages, each within the default segment size. -/
def seventeenPages : BlockRequest 128 :=
  { tag := 0
    op := .write
    fua := false
    pos := 0
    runs := [⟨0x100000, 36864, by decide⟩, ⟨0x200000, 32768, by decide⟩]
    mapping := fun i => some (.ofNat (0x100000 + 4096 * i))
    data := Or.inr rfl
    maxSegments := by decide
    maxHwSectors := by decide }

/-- The command is accepted, counts seventeen entries and has its last one behind the table. -/
theorem seventeenPages_not_sglBounded :
    let q := openflashSetupIoQueue 128 fun _ => 0x1000
    (openflashQueueRq 0 seventeenPages.rq q).status = .ok ∧
      ((openflashQueueRq 0 seventeenPages.rq q).queue.sqCmds q.sqTail).control = 17 ∧
      16 ∈ tableWrites seventeenPages.rq q ∧ ¬ SglBounded 0 seventeenPages.rq q := by
  intro q
  have hwritten : 16 ∈ tableWrites seventeenPages.rq q := by decide
  refine ⟨by decide, by decide, hwritten, fun h => ?_⟩
  exact absurd (h.writes 16 hwritten) (by decide)

end OpenFlash.Driver
